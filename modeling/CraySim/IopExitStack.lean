/-
  Subject:   The exit stack of an IOP over whole runs.

  Calls, interrupts and exits move a pointer of four bits around sixteen entries. A flag tells the
  program that the pointer reached the end of the stack, until the program takes it back. Entry 0
  is also where an interrupt finds its address.

  * `StackAct`, `stackAct` -- what an event does to the exit stack,
  * `step_stack` -- that it does this, and where an exit goes,
  * `Told` -- an event that leaves the stack, or its last entries, has raised the flag,
  * `Warned` -- no call is made with the pointer at 15 and the flag taken back,
  * `exit_stack` -- **exits are nested, and the program is told exactly where it is warned**.
-/
import CraySim.DelayedInterrupt
import CraySim.Lib.CallStack

namespace CraySim

/-! ## 1. What an event does to the stack -/

/-- What an event does to the exit stack. -/
inductive StackAct where
  | call (aAddr : IopInt)
  | exit
  | function (aFunction : Nat) (aData : IopInt)
  | clear
  | none
  deriving DecidableEq

namespace StackAct

def apply : StackAct → ChannelPXS → ChannelPXS
  | call aAddr, ch => ch.push aAddr
  | exit, ch => ch.pop.2
  | function aFunction aData, ch => (ch.doIo aFunction aData).2
  | clear, _ => ChannelPXS.masterClear
  | none, ch => ch

/-- The calls and exits. -/
def events : StackAct → List (CallStack.Event IopInt)
  | call aAddr => [.call aAddr]
  | exit => [.exit]
  | _ => []

/-- The program does not store to the stack or set its pointer, and nobody clears it. -/
def Plain : StackAct → Prop
  | function aFunction _ => aFunction ≠ 0o14 ∧ aFunction ≠ 0o15
  | clear => False
  | _ => True

/-- A call to one of the last two entries or past them, and an exit of an empty stack. -/
def Crosses (mE : BitVec 4) : StackAct → Prop
  | call _ => 13 ≤ mE
  | exit => mE = 0
  | _ => False

end StackAct

namespace ChannelPXS

/-- The entries and the pointer. -/
def ring (ch : ChannelPXS) : CallStack.Ring 4 IopInt := ⟨ch.mE, ch.mProgramExitStack⟩

theorem ring_push (ch : ChannelPXS) (aAddr : IopInt) : (ch.push aAddr).ring = ch.ring.push aAddr := by
  unfold ring push CallStack.Ring.push setAt
  congr 1
  funext i
  rw [Function.update_apply]

theorem ring_doIo (ch : ChannelPXS) {aFunction : Nat} (aData : IopInt) (h14 : aFunction ≠ 0o14)
    (h15 : aFunction ≠ 0o15) : (ch.doIo aFunction aData).2.ring = ch.ring := by
  unfold doIo
  split <;> first | rfl | contradiction

/-- Apart from storing and setting, what happens to the stack is calls and exits. -/
theorem ring_apply (ch : ChannelPXS) {a : StackAct} (ha : a.Plain) :
    (a.apply ch).ring = a.events.foldl CallStack.Ring.step ch.ring := by
  cases a with
  | call aAddr => exact ring_push ch aAddr
  | exit => rfl
  | function aFunction aData => exact ring_doIo ch aData ha.1 ha.2
  | clear => exact ha.elim
  | none => rfl

theorem ring_foldl (acts : List StackAct) (ch : ChannelPXS) (h : ∀ a ∈ acts, a.Plain) :
    (acts.foldl (fun ch a => a.apply ch) ch).ring =
      (acts.flatMap StackAct.events).foldl CallStack.Ring.step ch.ring := by
  induction acts generalizing ch with
  | nil => rfl
  | cons a acts ih =>
    rw [List.foldl_cons, ih _ fun a ha => h a (List.mem_cons_of_mem _ ha),
      ring_apply ch (h a List.mem_cons_self), List.flatMap_cons, List.foldl_append]

/-- The flag behind a call that crosses the end: only the wrap of the pointer leaves it as it was. -/
theorem push_flag (ch : ChannelPXS) (aAddr : IopInt) (h : 13 ≤ ch.mE) :
    (ch.push aAddr).mBundaryFlag = true ↔ (ch.mE = 15 → ch.mBundaryFlag = true) := by
  have hwrap : ∀ e : BitVec 4, 13 ≤ e → (e + 1 ≥ 14 ↔ e ≠ 15) := by decide
  have hflag : (ch.push aAddr).mBundaryFlag = (ch.mBundaryFlag || decide (ch.mE + 1 ≥ 14)) := rfl
  rw [hflag, Bool.or_eq_true, decide_eq_true_iff, hwrap _ h]
  tauto

end ChannelPXS

/-- A list of acts is nested in `n` levels. -/
def NestedIn (n : Nat) (acts : List StackAct) : Prop :=
  (∀ a ∈ acts, a.Plain) ∧ CallStack.play n (acts.flatMap StackAct.events) [] = some []

/-- No channel but its own touches the exit stack. -/
structure LeavesExitStack {σ : Type} (cs : IopChannels σ) : Prop where
  ioRequest : ∀ {channel aFunction : Nat} {aData : IopInt} {w : IoWorld σ}
    {r : IopInt × IoWorld σ}, cs.ioRequest channel aFunction aData w = .ok r → r.2.pxs = w.pxs
  tickChannels : ∀ {w w' : IoWorld σ}, cs.tickChannels w = .ok w' → w'.pxs = w.pxs
  masterClear : ∀ w : IoWorld σ, (cs.masterClear w).pxs = w.pxs

namespace IopCpu

open EventRun (run Along trace exists_of_bind)

variable {σ : Type} {cs : IopChannels σ}

/-- The codes of the branches that are calls. -/
def isCall (code : Nat) : Bool := code = 2 ∨ code = 3 ∨ code = 6 ∨ code = 7

/-- The address behind a call. -/
def returnAddress (c : IopCpu σ) (code : Nat) : IopInt := if code = 7 then c.P + 2 else c.P + 1

def stackAct (cs : IopChannels σ) (c : IopCpu σ) : Event σ → StackAct
  | .instruction =>
    if isJump c.fetched then
      if c.condition c.fetched && isCall (instCode c.fetched) then
        .call (c.returnAddress (instCode c.fetched))
      else .none
    else if isIo c.fetched then
      if c.addressed = 2 then .function (c.fetched % 16) c.regs.A else .none
    else if c.fetched = 0o001 then .exit
    else .none
  | .checkInterrupts => if c.I && (cs.findInterrupt c.io).isSome then .call c.P else .none
  | .masterClear => .clear
  | .tickChannels => .none
  | .outside _ => .none

/-- Others leave the exit stack alone. -/
def OutsideKeeps (c : IopCpu σ) : Event σ → Prop
  | .outside io => io.pxs = c.io.pxs
  | _ => True

/-! ## 2. The decoders -/

section decoders
variable {c : IopCpu σ} {r : IopDecoded σ} {f : Nat} {d : BitVec 9} {k : IopInt}

theorem instCode_lt (f : Nat) : instCode f < 8 := by
  unfold instCode
  split <;> omega

theorem pxs_requestFetch : (c.requestFetch d).io.pxs = c.io.pxs := by
  unfold requestFetch
  split <;> rfl

theorem pxs_jump {code : Nat} (hcode : code < 8) : (c.jump code d k).io.pxs =
    if isCall code then c.io.pxs.push (c.returnAddress code) else c.io.pxs := by
  have hfetch : (c.requestFetch d).io.pxs = c.io.pxs := pxs_requestFetch
  have hcases : code = 0 ∨ code = 1 ∨ code = 2 ∨ code = 3 ∨ code = 4 ∨ code = 5 ∨ code = 6 ∨
      code = 7 := by omega
  rcases hcases with rfl | rfl | rfl | rfl | rfl | rfl | rfl | rfl
  · rfl
  · rfl
  · rfl
  · rfl
  · exact hfetch
  · exact hfetch
  · exact congrArg (ChannelPXS.push · (c.P + 1)) hfetch
  · exact congrArg (ChannelPXS.push · (c.P + 2)) hfetch

theorem pxs_decodeJump : (c.decodeJump f d k).cpu.io.pxs =
    if c.condition f && isCall (instCode f) then c.io.pxs.push (c.returnAddress (instCode f))
    else c.io.pxs := by
  unfold decodeJump
  cases hcond : c.condition f with
  | true => exact pxs_jump (instCode_lt f)
  | false => rfl

theorem pxs_performIo (hcs : LeavesExitStack cs) {channel function : Nat}
    (h : c.performIo cs channel function = .ok r) :
    r.cpu.io.pxs =
      if channel = 2 then (c.io.pxs.doIo function c.regs.A).2 else c.io.pxs := by
  obtain ⟨⟨data, w⟩, hdo, hrest⟩ := exists_of_bind h
  obtain rfl := Except.ok.inj hrest
  change w.pxs = _
  unfold IopChannels.doIo at hdo
  split at hdo
  · rw [if_neg (by decide)]
    split at hdo
    · obtain ⟨-, rfl⟩ := Prod.mk.inj (Except.ok.inj hdo)
      rfl
    · obtain ⟨-, rfl⟩ := Prod.mk.inj (Except.ok.inj hdo)
      rfl
  · obtain ⟨-, rfl⟩ := Prod.mk.inj (Except.ok.inj hdo)
    rfl
  · obtain ⟨-, rfl⟩ := Prod.mk.inj (Except.ok.inj hdo)
    rfl
  · obtain ⟨-, rfl⟩ := Prod.mk.inj (Except.ok.inj hdo)
    rfl
  · next h0 h1 h2 h3 =>
    rw [if_neg h2]
    exact hcs.ioRequest hdo

/-- The processor always has a channel for its exit stack. -/
theorem pxs_decodeIo (hcs : LeavesExitStack cs) (h : c.decodeIo cs f d = .ok r) :
    r.cpu.io.pxs = if (if f / 16 = 6 then d.toNat else c.regs.B.toNat) = 2 then
      (c.io.pxs.doIo (f % 16) c.regs.A).2 else c.io.pxs := by
  obtain ⟨isThere, hlookup, hrest⟩ := exists_of_bind h
  have hthere := lookup_eq hlookup
  cases isThere with
  | true => exact pxs_performIo hcs hrest
  | false =>
    have hne : (if f / 16 = 6 then d.toNat else c.regs.B.toNat) ≠ 2 := by
      intro htwo
      rw [htwo] at hthere
      exact absurd hthere (by simp [IopChannels.present])
    rw [if_neg hne]
    simp only [Bool.not_false, if_true] at hrest
    split at hrest
    · exact absurd hrest (by simp [throw, throwThe, MonadExceptOf.throw, bind, Except.bind])
    · obtain rfl := Except.ok.inj hrest
      rfl

/-- Of the other instructions only `EXIT` knows the stack. -/
theorem pxs_decodeOther (h : c.decodeOther cs f d k = .ok r) :
    r.cpu.io.pxs = (if f = 0o001 then StackAct.exit else StackAct.none).apply c.io.pxs ∧
      (f = 0o001 → r.cpu.P + r.increment = c.io.pxs.pop.1) := by
  unfold decodeOther at h
  split at h
  case h_4 | h_5 | h_6 | h_7 =>
    exact ⟨(testChannel_hold h).2.2, fun h => absurd h (by decide)⟩
  · obtain rfl := Except.ok.inj h
    exact ⟨rfl, fun _ => BitVec.add_zero _⟩
  · obtain rfl := Except.ok.inj h
    exact ⟨rfl, fun h => absurd h (by decide)⟩
  · obtain rfl := Except.ok.inj h
    exact ⟨rfl, fun h => absurd h (by decide)⟩
  · next h1 _ _ _ _ _ _ =>
    obtain ⟨w, -, hrest⟩ := exists_of_bind h
    obtain rfl := Except.ok.inj hrest
    rw [if_neg h1]
    exact ⟨rfl, fun h => absurd h h1⟩

/-! ## 3. One event -/

/-- An instruction does to the stack what it is for. -/
theorem singleStep_stack (hcs : LeavesExitStack cs) {c' : IopCpu σ} {isLast : Bool}
    (h : c.singleStep cs = .ok (c', isLast)) :
    c'.io.pxs = (stackAct cs c .instruction).apply c.io.pxs ∧
      (stackAct cs c .instruction = .exit → c'.P = c.io.pxs.pop.1) := by
  obtain ⟨r, hdecode, hrest⟩ := exists_of_bind h
  have hafter : c'.io.pxs = r.cpu.io.pxs ∧ c'.P = r.cpu.P + r.increment := by
    obtain ⟨rfl, -⟩ := Prod.mk.inj (Except.ok.inj hrest)
    constructor
    · change IoWorld.pxs (IopCpu.io (if !r.aDelayISet && r.cpu.ISetIsWaiting then _ else _)) = _
      split <;> rfl
    · change IopCpu.P (if !r.aDelayISet && r.cpu.ISetIsWaiting then _ else _) + _ = _
      split <;> rfl
  rw [hafter.1, hafter.2]
  unfold decode at hdecode
  change (if isJump c.fetched then _ else if isIo c.fetched then _ else _) = _ at hdecode
  rw [stackAct]
  split at hdecode
  · next hjump =>
    obtain rfl := Except.ok.inj hdecode
    rw [if_pos hjump, pxs_decodeJump]
    constructor
    · change (if c.condition c.fetched && isCall (instCode c.fetched) then _ else _) = _
      split <;> rfl
    · intro hexit
      split at hexit
      · exact nomatch hexit
      · exact nomatch hexit
  · next hjump =>
    rw [if_neg hjump]
    split at hdecode
    · next hio =>
      rw [if_pos hio, pxs_decodeIo hcs hdecode]
      constructor
      · change (if c.addressed = 2 then _ else _) = _
        split <;> rfl
      · intro hexit
        split at hexit
        · exact nomatch hexit
        · exact nomatch hexit
    · next hio =>
      obtain ⟨hpxs, hP⟩ := pxs_decodeOther hdecode
      rw [if_neg hio]
      refine ⟨hpxs, fun hexit => hP ?_⟩
      by_contra hne
      rw [if_neg (show ¬ c.fetched = 0o001 from hne)] at hexit
      exact nomatch hexit

end decoders

section events
variable {c c' : IopCpu σ} {e : Event σ}

theorem stack_checkInterrupts (c : IopCpu σ) :
    (c.checkInterrupts cs).io.pxs = (stackAct cs c .checkInterrupts).apply c.io.pxs := by
  unfold checkInterrupts stackAct
  cases c.I with
  | false => rfl
  | true =>
    cases cs.findInterrupt c.io with
    | none => rfl
    | some i => rfl

/-- **One event** does to the stack what it is for, and an exit goes where the stack says. -/
theorem step_stack (hcs : LeavesExitStack cs) (hout : OutsideKeeps c e)
    (h : step cs e c = .ok c') :
    c'.io.pxs = (stackAct cs c e).apply c.io.pxs ∧
      (stackAct cs c e = .exit → c'.P = c.io.pxs.pop.1) := by
  cases e with
  | tickChannels =>
    rcases hio : cs.tickChannels c.io with e | io
    · rw [step, hio] at h
      exact absurd h (by simp [Except.map])
    · rw [step, hio] at h
      obtain rfl := Except.ok.inj h
      refine ⟨hcs.tickChannels hio, fun hexit => ?_⟩
      cases hexit
  | checkInterrupts =>
    obtain rfl := Except.ok.inj h
    refine ⟨stack_checkInterrupts c, fun hexit => ?_⟩
    rw [stackAct] at hexit
    split at hexit
    · cases hexit
    · cases hexit
  | instruction =>
    rcases hone : c.singleStep cs with e | ⟨c₁, isLast⟩
    · rw [step, hone] at h
      exact absurd h (by simp [Except.map])
    · rw [step, hone] at h
      obtain rfl := Except.ok.inj h
      exact singleStep_stack hcs hone
  | masterClear =>
    obtain rfl := Except.ok.inj h
    refine ⟨hcs.masterClear _, fun hexit => ?_⟩
    cases hexit
  | outside io =>
    obtain rfl := Except.ok.inj h
    refine ⟨hout, fun hexit => ?_⟩
    cases hexit

theorem call_succeeds {aAddr : IopInt} (h : stackAct cs c e = .call aAddr) :
    ∃ c', step cs e c = .ok c' := by
  cases e with
  | checkInterrupts => exact ⟨_, rfl⟩
  | instruction =>
    rw [stackAct] at h
    split at h
    · next hjump =>
      have hdecode : c.decode cs (c.io.mIoMemory c.P) (c.io.mIoMemory (c.P + 1)) =
          .ok (c.decodeJump c.fetched (designatorOf (c.io.mIoMemory c.P))
            (c.io.mIoMemory (c.P + 1))) := if_pos hjump
      rw [step, singleStep, hdecode]
      exact ⟨_, rfl⟩
    · split at h
      · split at h
        · cases h
        · cases h
      · split at h
        · cases h
        · cases h
  | tickChannels => cases h
  | masterClear => cases h
  | outside io => cases h

end events

/-! ## 4. Runs -/

/-- Where the pointer crosses an end of the stack, the flag is up behind the event. -/
def Told (cs : IopChannels σ) (c : IopCpu σ) (e : Event σ) : Prop :=
  ∀ c', step cs e c = .ok c' → (stackAct cs c e).Crosses c.io.pxs.mE →
    c'.io.pxs.mBundaryFlag = true

/-- A call with the pointer at 15 finds the flag up already. -/
def Warned (cs : IopChannels σ) (c : IopCpu σ) (e : Event σ) : Prop :=
  ∀ aAddr, stackAct cs c e = .call aAddr → c.io.pxs.mE = 15 → c.io.pxs.mBundaryFlag = true

theorem told_iff_warned (hcs : LeavesExitStack cs) {c : IopCpu σ} {e : Event σ}
    (hout : OutsideKeeps c e) : Told cs c e ↔ Warned cs c e := by
  constructor
  · intro h aAddr hcall h15
    obtain ⟨c', hstep⟩ := @call_succeeds _ cs c e aAddr hcall
    have hpxs := (step_stack hcs hout hstep).1
    have hcross : (stackAct cs c e).Crosses c.io.pxs.mE := by
      rw [hcall, h15]
      exact (by decide : (13 : BitVec 4) ≤ 15)
    have hflag := h c' hstep hcross
    rw [hpxs, hcall] at hflag
    exact (ChannelPXS.push_flag c.io.pxs aAddr (by rw [h15]; decide)).mp hflag h15
  · intro h c' hstep hcross
    have hpxs := (step_stack hcs hout hstep).1
    rw [hpxs]
    cases hact : stackAct cs c e with
    | call aAddr =>
      rw [hact] at hcross
      exact (ChannelPXS.push_flag c.io.pxs aAddr hcross).mpr (h aAddr hact)
    | exit =>
      rw [hact] at hcross
      have hempty : (c.io.pxs.mE == 0) = true := beq_iff_eq.mpr hcross
      exact (congrArg (c.io.pxs.mBundaryFlag || ·) hempty).trans (Bool.or_true _)
    | function aFunction aData =>
      rw [hact] at hcross
      exact hcross.elim
    | clear =>
      rw [hact] at hcross
      exact hcross.elim
    | none =>
      rw [hact] at hcross
      exact hcross.elim

theorem run_stack (hcs : LeavesExitStack cs) {es : List (Event σ)} {c c' : IopCpu σ}
    (hout : Along (step cs) OutsideKeeps es c) (hrun : run (step cs) es c = .ok c') :
    c'.io.pxs = (trace (step cs) (stackAct cs) es c).foldl (fun ch a => a.apply ch) c.io.pxs := by
  refine EventRun.run_refines (R := fun c ch => c.io.pxs = ch) ?_ rfl hout hrun
  intro c ch e c' hch hkeeps hstep
  rw [(step_stack hcs hkeeps hstep).1, hch]

/-- **The exit stack**, over every run. Behind a call, by a branch or an interrupt, and events that
    are nested in it, within fifteen levels in all, an exit returns to the address that the call
    put on the stack, and the pointer is back where it was. And in every run the program is told of
    every end of the stack that is crossed exactly where no call is made with the pointer at 15 and
    the flag taken back. -/
theorem exit_stack (cs : IopChannels σ) (hcs : LeavesExitStack cs) :
    (∀ (c c₁ c₂ c₃ : IopCpu σ) (e e' : Event σ) (body : List (Event σ)) (aAddr : IopInt),
      stackAct cs c e = .call aAddr → step cs e c = .ok c₁ →
      Along (step cs) OutsideKeeps body c₁ → run (step cs) body c₁ = .ok c₂ →
      NestedIn 14 (trace (step cs) (stackAct cs) body c₁) →
      stackAct cs c₂ e' = .exit → step cs e' c₂ = .ok c₃ →
      c₃.P = aAddr ∧ c₃.io.pxs.mE = c.io.pxs.mE) ∧
    (∀ (es : List (Event σ)) (c : IopCpu σ), Along (step cs) OutsideKeeps es c →
      (Along (step cs) (Told cs) es c ↔ Along (step cs) (Warned cs) es c)) := by
  refine ⟨?_, fun es c hout => EventRun.along_congr (fun _ _ hkeeps => told_iff_warned hcs hkeeps)
    hout⟩
  intro c c₁ c₂ c₃ e e' body aAddr hcall hstep hout hbody hnested hexit hlast
  have hkeeps : OutsideKeeps c e := by
    cases e with
    | outside io => exact nomatch hcall
    | tickChannels | checkInterrupts | instruction | masterClear => trivial
  have hkeeps' : OutsideKeeps c₂ e' := by
    cases e' with
    | outside io => exact nomatch hexit
    | tickChannels | checkInterrupts | instruction | masterClear => trivial
  have h₁ : c₁.io.pxs = c.io.pxs.push aAddr := by
    rw [(step_stack hcs hkeeps hstep).1, hcall]
    rfl
  have h₂ : c₂.io.pxs.ring = ((trace (step cs) (stackAct cs) body c₁).flatMap
      StackAct.events).foldl CallStack.Ring.step (c.io.pxs.ring.push aAddr) := by
    rw [run_stack hcs hout hbody, ChannelPXS.ring_foldl _ _ hnested.1, h₁, ChannelPXS.ring_push]
  obtain ⟨hpxs, hP⟩ := step_stack hcs hkeeps' hlast
  obtain ⟨htop, hpointer⟩ := c.io.pxs.ring.returns aAddr (by decide) hnested.2
  rw [← h₂] at htop hpointer
  refine ⟨(hP hexit).trans htop, ?_⟩
  rw [hpxs, hexit]
  exact hpointer

theorem noChannels_leavesExitStack : LeavesExitStack noChannels where
  ioRequest h := by
    obtain rfl := Except.ok.inj h
    rfl
  tickChannels h := by
    obtain rfl := Except.ok.inj h
    rfl
  masterClear _ := rfl

/-- `R = P + 2`. -/
def callTwo : IopInt := 0o072002

/-- `EXIT`. -/
def exitInst : IopInt := 0o001000

/-- A call over one instruction, at its target another one, and exits. -/
def calling : IopCpu Unit :=
  { running callTwo 0 with
    io := { (running callTwo 0).io with
      mIoMemory := fun a => if a = 0 ∨ a = 2 then callTwo else exitInst } }

/-- The exit behind the nested call and its exit goes behind the first call, and the program would
    have been told of an end. -/
theorem exit_stack_returns :
    (∃ c₁ c₂ c₃, step noChannels .instruction calling = .ok c₁ ∧
      run (step noChannels) [.instruction, .instruction] c₁ = .ok c₂ ∧
      step noChannels .instruction c₂ = .ok c₃ ∧ c₃.P = 1 ∧ c₃.io.pxs.mE = 0) ∧
    Along (step noChannels) (Told noChannels) [.instruction, .instruction] calling := by
  have hout : ∀ c, Along (step noChannels) OutsideKeeps [.instruction, .instruction] c :=
    EventRun.along_of_mem (by simp [OutsideKeeps])
  have hnested : NestedIn 14 [.call 3, .exit] := ⟨by simp [StackAct.Plain], rfl⟩
  refine ⟨⟨_, _, _, rfl, rfl, rfl, ?_⟩, ?_⟩
  · exact (exit_stack noChannels noChannels_leavesExitStack).1 calling _ _ _ .instruction
      .instruction [.instruction, .instruction] 1 rfl rfl (hout _) rfl hnested rfl rfl
  · refine ((exit_stack noChannels noChannels_leavesExitStack).2 [.instruction, .instruction] calling
      (hout _)).mpr ?_
    refine .cons (fun _ _ h15 => absurd h15 (by decide)) rfl (.one ?_)
    exact fun _ _ h15 => absurd h15 (by decide)

/-- `R = P + 1`. -/
def callNext : IopInt := 0o072001

/-- Function 0 of the exit stack's channel: the flag is taken back. -/
def clearBoundary : IopInt := 0o140002

/-- Calls, with the flag taken back after fifteen of them. -/
def callingOn : IopCpu Unit :=
  { running callNext callNext with
    io := { (running callNext callNext).io with
      mIoMemory := fun a => if a = 15 then clearBoundary else callNext } }

/-- The sixteenth call goes over entry 0 and leaves the flag down. -/
theorem not_told_wrap : ¬ ∀ (cs : IopChannels Unit) (es : List (Event Unit)) (c : IopCpu Unit),
    LeavesExitStack cs → Along (step cs) OutsideKeeps es c → Along (step cs) (Told cs) es c := by
  intro h
  have hout : Along (step noChannels) OutsideKeeps (List.replicate 16 .instruction ++ [.instruction])
      callingOn := EventRun.along_of_mem (by simp [OutsideKeeps]) callingOn
  obtain ⟨c, hrun, h15, hflag, hcall⟩ : ∃ c,
      run (step noChannels) (List.replicate 16 .instruction) callingOn = .ok c ∧
        c.io.pxs.mE = 15 ∧ c.io.pxs.mBundaryFlag = false ∧
        stackAct noChannels c .instruction = .call 17 :=
    ⟨_, rfl, by decide, by decide, by decide⟩
  have htold := (h noChannels _ callingOn noChannels_leavesExitStack hout).append_one hrun
  have hkeeps : OutsideKeeps c .instruction := trivial
  have hup := (told_iff_warned noChannels_leavesExitStack hkeeps).mp htold.2 17 hcall h15
  rw [hflag] at hup
  exact nomatch hup

end IopCpu

end CraySim
