/-
  Subject:   Programs that reach their machine through requests only.

  A program is a tree of requests; a handler gives every request its effect on a machine state
  and its answer. Since a program has no other way to touch the machine, a property of whole runs
  follows from the requests the program can make and from what each of them does:

  * `Within Q p post m` -- `m` makes only requests in `p` and returns in `post`,
  * `Run`, `Run.Keeps` -- computations on a machine, and what they keep,
  * `run_invariant` -- what every request of `p` keeps, a run keeps,
  * `trace` -- the requests a run makes, in order,
  * `run_outside` -- the first answer of a run that breaks an assumption,
  * `Emits` -- the events of a run, in order, as far as it gets.

  `forUpTo` and `foldUpTo` are the counting loops, with one rule each.
-/

/-- A program: a result, an exception, or a request and what to do with its answer. -/
inductive Program (Req : Type) (Resp : Req → Type) (ε α : Type) where
  | ret (a : α) : Program Req Resp ε α
  | raise (e : ε) : Program Req Resp ε α
  | ask (r : Req) (k : Resp r → Program Req Resp ε α) : Program Req Resp ε α

namespace Program

variable {Req : Type} {Resp : Req → Type} {ε α β S : Type}

/-! ## 1. Sequencing and loops -/

protected def bind : Program Req Resp ε α → (α → Program Req Resp ε β) → Program Req Resp ε β
  | ret a, f => f a
  | raise e, _ => raise e
  | ask r k, f => ask r fun x => (k x).bind f

instance : Monad (Program Req Resp ε) where
  pure := ret
  bind := Program.bind

/-- One request, for its answer. -/
def request (r : Req) : Program Req Resp ε (Resp r) := ask r ret

/-- `f i (f (i + 1) …)`: `n` rounds of a loop that carries a value. -/
def foldFrom (f : Nat → β → Program Req Resp ε β) : Nat → Nat → β → Program Req Resp ε β
  | 0, _, b => ret b
  | n + 1, i, b => (f i b).bind (foldFrom f n (i + 1))

/-- `for (i = 0; i < n; ++i) b = f(i, b);` -/
def foldUpTo (n : Nat) (b : β) (f : Nat → β → Program Req Resp ε β) : Program Req Resp ε β :=
  foldFrom f n 0 b

/-- `for (i = 0; i < n; ++i) f(i);` -/
def forUpTo (n : Nat) (f : Nat → Program Req Resp ε Unit) : Program Req Resp ε Unit :=
  foldUpTo n () fun i _ => f i

theorem bind_eq (m : Program Req Resp ε α) (f : α → Program Req Resp ε β) :
    (m >>= f) = m.bind f := rfl

/-! ## 2. Requests a program can make -/

/-- `m` makes requests in `p` only and returns in `post`, as long as the answers are in `Q`. -/
def Within (Q : (r : Req) → Resp r → Prop) (p : Req → Prop) (post : α → Prop) :
    Program Req Resp ε α → Prop
  | ret a => post a
  | raise _ => True
  | ask r k => p r ∧ ∀ x, Q r x → (k x).Within Q p post

section within
variable {Q : (r : Req) → Resp r → Prop} {p : Req → Prop}

@[simp] theorem within_pure {post : α → Prop} (a : α) :
    (pure a : Program Req Resp ε α).Within Q p post ↔ post a := Iff.rfl

theorem within_ask {post : α → Prop} {r : Req} {k : Resp r → Program Req Resp ε α} :
    (ask r k).Within Q p post ↔ p r ∧ ∀ x, Q r x → (k x).Within Q p post := Iff.rfl

/-- **Sequencing**: the first part returns where the second one is within bounds. -/
@[simp] theorem within_bind {m : Program Req Resp ε α} {f : α → Program Req Resp ε β}
    {post : β → Prop} :
    (m >>= f).Within Q p post ↔ m.Within Q p fun a => (f a).Within Q p post := by
  rw [bind_eq]
  induction m with
  | ret a => exact Iff.rfl
  | raise e => exact Iff.rfl
  | ask r k ih =>
    unfold Program.bind
    rw [within_ask, within_ask]
    exact and_congr_right fun _ => forall_congr' fun x => imp_congr_right fun _ => ih x

theorem within_ite {c : Prop} [Decidable c] {m m' : Program Req Resp ε α} {post : α → Prop} :
    (if c then m else m').Within Q p post ↔
      (c → m.Within Q p post) ∧ (¬ c → m'.Within Q p post) := by
  split
  · exact ⟨fun h => ⟨fun _ => h, fun hn => absurd ‹c› hn⟩, fun h => h.1 ‹c›⟩
  · exact ⟨fun h => ⟨fun hc => absurd hc ‹¬ c›, fun _ => h⟩, fun h => h.2 ‹¬ c›⟩

theorem Within.mono {Q' : (r : Req) → Resp r → Prop} {p' : Req → Prop} {post post' : α → Prop}
    {m : Program Req Resp ε α} (hm : m.Within Q p post) (hQ : ∀ r x, Q' r x → Q r x)
    (hp : ∀ r, p r → p' r) (hpost : ∀ a, post a → post' a) : m.Within Q' p' post' := by
  induction m with
  | ret a => exact hpost a hm
  | raise e => trivial
  | ask r k ih => exact ⟨hp r hm.1, fun x hx => ih x (hm.2 x (hQ r x hx))⟩

theorem within_foldFrom {f : Nat → β → Program Req Resp ε β} {I : β → Prop}
    (hf : ∀ i b, I b → (f i b).Within Q p I) (n i : Nat) {b : β} (hb : I b) :
    (foldFrom f n i b).Within Q p I := by
  induction n generalizing i b with
  | zero => exact hb
  | succ n ih => exact within_bind.mpr ((hf i b hb).mono (fun _ _ h => h) (fun _ h => h)
      fun b' hb' => ih (i + 1) hb')

/-- **Loops**: every round is checked once; what the rounds carry stays in `I`. -/
theorem within_foldUpTo {n : Nat} {b : β} {f : Nat → β → Program Req Resp ε β} {I post : β → Prop}
    (hf : ∀ i b, I b → (f i b).Within Q p I) (hb : I b) (hpost : ∀ b, I b → post b) :
    (foldUpTo n b f).Within Q p post :=
  (within_foldFrom hf n 0 hb).mono (fun _ _ h => h) (fun _ h => h) hpost

theorem within_forUpTo {n : Nat} {f : Nat → Program Req Resp ε Unit} {post : Unit → Prop}
    (hf : ∀ i, (f i).Within Q p fun _ => True) (hpost : post ()) :
    (forUpTo n f).Within Q p post :=
  within_foldUpTo (I := fun _ => True) (fun i _ _ => hf i) trivial fun _ _ => hpost

end within

/-! ## 3. Computations on a machine -/

end Program

/-- A computation on a machine of type `S`; an exception keeps the state it left. -/
def Run (ε S α : Type) := S → Except ε α × S

namespace Run

variable {ε S α β : Type}

protected def bind (m : Run ε S α) (f : α → Run ε S β) : Run ε S β := fun s =>
  match m s with
  | (.ok a, s') => f a s'
  | (.error e, s') => (.error e, s')

instance : Monad (Run ε S) where
  pure a := fun s => (.ok a, s)
  bind := Run.bind

/-- The machine. -/
def get : Run ε S S := fun s => (.ok s, s)

def modify (f : S → S) : Run ε S Unit := fun s => (.ok (), f s)

def throw (e : ε) : Run ε S α := fun s => (.error e, s)

theorem pure_apply (a : α) (s : S) : (pure a : Run ε S α) s = (.ok a, s) := rfl

theorem get_apply (s : S) : (get : Run ε S S) s = (.ok s, s) := rfl

theorem modify_apply (f : S → S) (s : S) : (modify f : Run ε S Unit) s = (.ok (), f s) := rfl

theorem throw_apply (e : ε) (s : S) : (throw e : Run ε S α) s = (.error e, s) := rfl

theorem bind_apply (m : Run ε S α) (f : α → Run ε S β) (s : S) :
    (m >>= f) s = match m s with
      | (.ok a, s') => f a s'
      | (.error e, s') => (.error e, s') := rfl

variable {f : α → Run ε S β} {m : Run ε S α}

theorem bind_apply_ok {s s' : S} {a : α} (h : m s = (.ok a, s')) : (m >>= f) s = f a s' := by
  rw [bind_apply, h]

theorem bind_apply_error {s s' : S} {e : ε}
    (h : m s = (.error e, s')) : (m >>= f) s = (.error e, s') := by
  rw [bind_apply, h]

protected theorem bind_assoc {γ : Type} (m : Run ε S α) (f : α → Run ε S β) (k : β → Run ε S γ) :
    (m >>= f) >>= k = m >>= fun a => f a >>= k := by
  funext s
  simp only [bind_apply]
  rcases m s with ⟨e | a, s'⟩ <;> rfl

/-- **Inversion of a sequence**: if it returns, so did both parts. -/
theorem bind_eq_ok {s s'' : S} {b : β}
    (h : (m >>= f) s = (.ok b, s'')) : ∃ a s', m s = (.ok a, s') ∧ f a s' = (.ok b, s'') := by
  rcases hm : m s with ⟨e | a, s'⟩
  · rw [bind_apply_error hm] at h
    cases h
  · rw [bind_apply_ok hm] at h
    exact ⟨a, s', rfl, h⟩

theorem bind_ok_iff {s s'' : S} {b : β} :
    (m >>= f) s = (.ok b, s'') ↔ ∃ a s', m s = (.ok a, s') ∧ f a s' = (.ok b, s'') :=
  ⟨bind_eq_ok, fun ⟨_, _, hm, hf⟩ => (bind_apply_ok hm).trans hf⟩

/-- What the computation keeps, whether it returns or throws. -/
def Keeps (I : S → Prop) (m : Run ε S α) : Prop := ∀ s, I s → I (m s).2

section keeps
variable {I : S → Prop}

theorem Keeps.bind {m : Run ε S α} {f : α → Run ε S β} (hm : m.Keeps I)
    (hf : ∀ a, (f a).Keeps I) : (m >>= f).Keeps I := by
  intro s hs
  have hI := hm s hs
  rcases hms : m s with ⟨e | a, s'⟩
  · rw [hms] at hI
    rw [bind_apply_error hms]
    exact hI
  · rw [hms] at hI
    rw [bind_apply_ok hms]
    exact hf a s' hI

theorem keeps_pure (a : α) : (pure a : Run ε S α).Keeps I := fun _ hs => hs

theorem keeps_get : (get : Run ε S S).Keeps I := fun _ hs => hs

theorem keeps_throw (e : ε) : (throw e : Run ε S α).Keeps I := fun _ hs => hs

theorem keeps_modify {f : S → S} (h : ∀ s, I s → I (f s)) :
    (modify f : Run ε S Unit).Keeps I := h

theorem Keeps.ite {c : Prop} [Decidable c] {m m' : Run ε S α} (hm : c → m.Keeps I)
    (hm' : ¬ c → m'.Keeps I) : (if c then m else m').Keeps I := by
  split
  · exact hm ‹c›
  · exact hm' ‹¬ c›

end keeps

end Run

/-! ## 4. Running a program -/

namespace Program

variable {Req : Type} {Resp : Req → Type} {ε α β S : Type}

/-- What a request does to the machine, and its answer. -/
abbrev Handler (Req : Type) (Resp : Req → Type) (ε S : Type) := (r : Req) → Run ε S (Resp r)

/-- The run of a program on a machine. -/
def run (h : Handler Req Resp ε S) : Program Req Resp ε α → Run ε S α
  | ret a, s => (.ok a, s)
  | raise e, s => (.error e, s)
  | ask r k, s =>
    match h r s with
    | (.ok x, s') => (k x).run h s'
    | (.error e, s') => (.error e, s')

section run
variable {h : Handler Req Resp ε S}

theorem run_ask_ok {r : Req} {k : Resp r → Program Req Resp ε α} {s s' : S} {x : Resp r}
    (hr : h r s = (.ok x, s')) : (ask r k).run h s = (k x).run h s' := by
  rw [run, hr]

theorem run_ask_error {r : Req} {k : Resp r → Program Req Resp ε α} {s s' : S} {e : ε}
    (hr : h r s = (.error e, s')) : (ask r k).run h s = (.error e, s') := by
  rw [run, hr]

/-- The run of a sequence is the sequence of the runs. -/
theorem run_bind (m : Program Req Resp ε α) (f : α → Program Req Resp ε β) :
    (m >>= f).run h = m.run h >>= fun a => (f a).run h := by
  funext s
  rw [bind_eq]
  induction m generalizing s with
  | ret a => rfl
  | raise e => rfl
  | ask r k ih =>
    rcases hr : h r s with ⟨x | x, s'⟩
    · rw [Run.bind_apply_error (run_ask_error hr)]
      exact run_ask_error hr
    · rw [Run.bind_apply, run_ask_ok hr]
      exact (run_ask_ok hr).trans (ih x s')

variable {m : Program Req Resp ε α}

/-- **The invariant rule**: what every request of `p` keeps, the run keeps, exceptions included;
    and if the run returns, it returns in `post`. -/
theorem run_invariant {Q : (r : Req) → Resp r → Prop} {p : Req → Prop} {post : α → Prop}
    {I : S → Prop} (hstep : ∀ r s, p r → I s → I (h r s).2 ∧ ∀ x, (h r s).1 = .ok x → Q r x)
    (hm : m.Within Q p post) {s : S} (hs : I s) :
    I (m.run h s).2 ∧ ∀ a, (m.run h s).1 = .ok a → post a := by
  induction m generalizing s with
  | ret a =>
    refine ⟨hs, ?_⟩
    rintro a' ⟨⟩
    exact hm
  | raise e =>
    refine ⟨hs, ?_⟩
    rintro a' ⟨⟩
  | ask r k ih =>
    obtain ⟨hI, hQ⟩ := hstep r s hm.1 hs
    rcases hr : h r s with ⟨x | x, s'⟩
    · rw [hr] at hI
      rw [run_ask_error hr]
      refine ⟨hI, ?_⟩
      rintro a' ⟨⟩
    · rw [hr] at hI hQ
      rw [run_ask_ok hr]
      exact ih x (hm.2 x (hQ x rfl)) hI

/-- The requests a run makes, in order, each with the state it is made in. -/
def trace (h : Handler Req Resp ε S) : Program Req Resp ε α → S → List (Req × S)
  | ret _, _ => []
  | raise _, _ => []
  | ask r k, s =>
    (r, s) :: match h r s with
      | (.ok x, s') => (k x).trace h s'
      | (.error _, _) => []

theorem trace_ask (r : Req) (k : Resp r → Program Req Resp ε α) (s : S) :
    (ask r k).trace h s =
      (r, s) :: match h r s with
        | (.ok x, s') => (k x).trace h s'
        | (.error _, _) => [] := by
  rw [trace]

theorem trace_request (r : Req) (s : S) :
    (request r : Program Req Resp ε (Resp r)).trace h s = [(r, s)] := by
  unfold request
  rw [trace_ask]
  split
  · rfl
  · rfl

theorem trace_bind (m : Program Req Resp ε α) (f : α → Program Req Resp ε β) (s : S) :
    (m >>= f).trace h s = m.trace h s ++ match m.run h s with
      | (.ok a, s') => (f a).trace h s'
      | (.error _, _) => [] := by
  rw [bind_eq]
  induction m generalizing s with
  | ret a => rfl
  | raise e => rfl
  | ask r k ih =>
    unfold Program.bind
    rw [trace_ask, trace_ask, List.cons_append]
    rcases hr : h r s with ⟨e | x, s'⟩
    · rw [run_ask_error hr]
      rfl
    · rw [run_ask_ok hr]
      exact congrArg _ (ih x s')

/-- The requests of a sequence whose first part returns. -/
theorem trace_bind_ok {f : α → Program Req Resp ε β} {s s' : S} {a : α}
    (hm : m.run h s = (.ok a, s')) : (m >>= f).trace h s = m.trace h s ++ (f a).trace h s' := by
  rw [trace_bind, hm]

/-- **The first answer outside `Q`**: a run either meets one, where the invariant still holds, or
    it ends as the program says. -/
theorem run_outside {Q : (r : Req) → Resp r → Prop} {p : Req → Prop} {post : α → Prop}
    {I : S → Prop}
    (hstep : ∀ r t x t', p r → I t → h r t = (.ok x, t') → Q r x → I t')
    (hm : m.Within Q p post) {s s' : S} {a : α} (hs : I s)
    (hrun : m.run h s = (.ok a, s')) :
    (∃ c ∈ m.trace h s, I c.2 ∧ ∃ x t', h c.1 c.2 = (.ok x, t') ∧ ¬ Q c.1 x) ∨
      (I s' ∧ post a) := by
  induction m generalizing s with
  | ret b =>
    cases hrun
    exact Or.inr ⟨hs, hm⟩
  | raise e => cases hrun
  | ask r k ih =>
    rcases hr : h r s with ⟨e | x, t⟩
    · rw [run_ask_error hr] at hrun
      cases hrun
    · rw [run_ask_ok hr] at hrun
      by_cases hQ : Q r x
      · rcases ih x (hm.2 x hQ) (hstep r s x t hm.1 hs hr hQ) hrun with ⟨c, hc, hrest⟩ | hend
        · refine Or.inl ⟨c, ?_, hrest⟩
          rw [trace_ask, hr]
          exact List.mem_cons_of_mem _ hc
        · exact Or.inr hend
      · refine Or.inl ⟨(r, s), ?_, hs, x, t, hr, hQ⟩
        rw [trace_ask]
        exact List.mem_cons_self

/-- **Loops**: a counting loop whose every round is known runs through its states and through the
    values it carries. -/
theorem run_foldUpTo {f : Nat → β → Program Req Resp ε β} {b : Nat → β} {st : Nat → S} (n : Nat)
    (hround : ∀ i, i < n → (f i (b i)).run h (st i) = (.ok (b (i + 1)), st (i + 1))) :
    (foldUpTo n (b 0) f).run h (st 0) = (.ok (b n), st n) := by
  have key : ∀ m i, i + m = n → (foldFrom f m i (b i)).run h (st i) = (.ok (b n), st n) := by
    intro m
    induction m with
    | zero =>
      intro i hi
      rw [show i = n from hi]
      rfl
    | succ m ih =>
      intro i hi
      rw [foldFrom, ← bind_eq, run_bind, Run.bind_apply_ok (hround i (by omega))]
      exact ih (i + 1) (by omega)
  exact key n 0 (Nat.zero_add n)

/-- A counting loop ends where one of its rounds throws. -/
theorem run_foldUpTo_error {f : Nat → β → Program Req Resp ε β} {b : Nat → β} {st : Nat → S}
    {n m : Nat} {e : ε} {s' : S} (hm : m < n)
    (hround : ∀ i, i < m → (f i (b i)).run h (st i) = (.ok (b (i + 1)), st (i + 1)))
    (herror : (f m (b m)).run h (st m) = (.error e, s')) :
    (foldUpTo n (b 0) f).run h (st 0) = (.error e, s') := by
  have key : ∀ k i, i + k = n → i ≤ m → (foldFrom f k i (b i)).run h (st i) = (.error e, s') := by
    intro k
    induction k with
    | zero =>
      intro i hi him
      omega
    | succ k ih =>
      intro i hi him
      rw [foldFrom, ← bind_eq, run_bind]
      obtain rfl | hlt := Nat.eq_or_lt_of_le him
      · exact Run.bind_apply_error herror
      · rw [Run.bind_apply_ok (hround i hlt)]
        exact ih (i + 1) (by omega) hlt
  exact key n 0 (Nat.zero_add n) (Nat.zero_le m)

theorem run_forUpTo {f : Nat → Program Req Resp ε Unit} {st : Nat → S} (n : Nat)
    (hround : ∀ i, i < n → (f i).run h (st i) = (.ok (), st (i + 1))) :
    (forUpTo n f).run h (st 0) = (.ok (), st n) :=
  run_foldUpTo (b := fun _ => ()) n hround

/-! ## 5. The events of a run -/

/-- The requests of a run that `g` takes for events. -/
def events {E : Type} (g : Req × S → Option E) (h : Handler Req Resp ε S)
    (m : Program Req Resp ε α) (s : S) : List E :=
  (m.trace h s).filterMap g

/-- From a state in `pre` a run emits the events `l` and returns in `post`; if it throws, it has
    emitted the first ones of them. -/
def Emits {E : Type} (g : Req × S → Option E) (h : Handler Req Resp ε S) (pre : S → Prop)
    (l : List E) (post : α → S → Prop) (m : Program Req Resp ε α) : Prop :=
  ∀ s, pre s → m.events g h s <+: l ∧
    ∀ a s', m.run h s = (.ok a, s') → m.events g h s = l ∧ post a s'

section emits
variable {E : Type} {g : Req × S → Option E} {pre : S → Prop}

theorem events_bind (m : Program Req Resp ε α) (f : α → Program Req Resp ε β) (s : S) :
    (m >>= f).events g h s = m.events g h s ++ match m.run h s with
      | (.ok a, s') => (f a).events g h s'
      | (.error _, _) => [] := by
  unfold events
  rw [trace_bind, List.filterMap_append]
  split
  · rfl
  · rfl

theorem emits_ret {post : α → S → Prop} {a : α} (hpost : ∀ s, pre s → post a s) :
    (ret a : Program Req Resp ε α).Emits g h pre [] post := by
  intro s hs
  refine ⟨List.nil_prefix, ?_⟩
  rintro b s' ⟨⟩
  exact ⟨rfl, hpost s hs⟩

theorem emits_raise {post : α → S → Prop} {e : ε} {l : List E} :
    (raise e : Program Req Resp ε α).Emits g h pre l post := by
  intro s _
  refine ⟨List.nil_prefix, ?_⟩
  rintro b s' ⟨⟩

theorem emits_request {r : Req} {post : Resp r → S → Prop} {l : List E}
    (hg : ∀ s, pre s → (g (r, s)).toList = l)
    (hpost : ∀ s a s', pre s → h r s = (.ok a, s') → post a s') :
    (request r : Program Req Resp ε (Resp r)).Emits g h pre l post := by
  intro s hs
  have hev : (request r : Program Req Resp ε (Resp r)).events g h s = l := by
    unfold events
    rw [trace_request, ← hg s hs, List.filterMap_cons]
    cases g (r, s) with
    | none => rfl
    | some e => rfl
  refine ⟨hev ▸ List.prefix_refl _, fun a s' hrun => ⟨hev, ?_⟩⟩
  rcases hr : h r s with ⟨e | x, t⟩
  · rw [request, run_ask_error hr] at hrun
    cases hrun
  · rw [request, run_ask_ok hr] at hrun
    cases hrun
    exact hpost s a s' hs hr

theorem Emits.bind {q : α → S → Prop} {post : β → S → Prop} {u v : List E}
    {m : Program Req Resp ε α} {f : α → Program Req Resp ε β} (hm : m.Emits g h pre u q)
    (hf : ∀ a, (f a).Emits g h (q a) v post) : (m >>= f).Emits g h pre (u ++ v) post := by
  intro s hs
  obtain ⟨hpre, hret⟩ := hm s hs
  rw [events_bind, run_bind]
  rcases hr : m.run h s with ⟨e | a, s'⟩
  · rw [Run.bind_apply_error hr]
    refine ⟨?_, ?_⟩
    · simpa using hpre.trans (List.prefix_append u v)
    · rintro b t ⟨⟩
  · obtain ⟨hev, hmid⟩ := hret a s' hr
    obtain ⟨hpre', hret'⟩ := hf a s' hmid
    rw [Run.bind_apply_ok hr, hev]
    refine ⟨(List.prefix_append_right_inj u).mpr hpre', fun b t hb => ?_⟩
    obtain ⟨hev', hpost⟩ := hret' b t hb
    exact ⟨congrArg _ hev', hpost⟩

theorem Emits.mono {pre' : S → Prop} {post post' : α → S → Prop} {l : List E}
    {m : Program Req Resp ε α} (hm : m.Emits g h pre l post) (hpre : ∀ s, pre' s → pre s)
    (hpost : ∀ a s, post a s → post' a s) : m.Emits g h pre' l post' := by
  intro s hs
  obtain ⟨h1, h2⟩ := hm s (hpre s hs)
  exact ⟨h1, fun a s' hr => ⟨(h2 a s' hr).1, hpost a s' (h2 a s' hr).2⟩⟩

/-- **Loops**: round `i` emits `x i` and takes the invariant on. -/
theorem emits_foldUpTo {f : Nat → β → Program Req Resp ε β} {I : Nat → S → Prop} {x : Nat → E}
    {n : Nat} {b : β}
    (hround : ∀ i b, i < n → (f i b).Emits g h (I i) [x i] fun _ s => I (i + 1) s) :
    (foldUpTo n b f).Emits g h (I 0) ((List.range n).map x) fun _ s => I n s := by
  have key : ∀ m i b, i + m = n →
      (foldFrom f m i b).Emits g h (I i) ((List.range' i m).map x) fun _ s => I n s := by
    intro m
    induction m with
    | zero =>
      intro i b hi
      rw [show i = n from hi]
      exact emits_ret fun _ hs => hs
    | succ m ih =>
      intro i b hi
      rw [foldFrom, ← bind_eq]
      exact (hround i b (by omega)).bind fun b' => ih (i + 1) b' (by omega)
  rw [List.range_eq_range']
  exact key n 0 b (Nat.zero_add n)

end emits

end run

end Program
