/-
  Subject:   The delayed interrupt enable of an IOP.

  `I = 1` waits until an instruction completes that is neither a branch nor for a channel. Every
  decoder raises its delay flag on its own; the one for channel functions does not do so where the
  channel does not exist.

  * `Event`, `step` -- what happens to a processor, `tick_run` for what a tick does of it,
  * `kindOf`, `view` -- what an instruction means to the flag,
  * `Addressed` -- while `I = 1` waits, channel functions address channels that exist,
  * `enabled_later` -- the flag, over every run.
-/
import CraySim.IopCpu
import CraySim.Lib.DelayedEnable
import CraySim.Lib.EventRun

namespace CraySim

namespace IopCpu

open EventRun (run Along trace exists_of_bind)
open DelayedEnable (Latch Action follow followAll outlasts)

variable {σ : Type} {cs : IopChannels σ}

/-! ## 1. Events -/

/-- The parts of a tick, the master clear, and what others do to channels and memory. -/
inductive Event (σ : Type) where
  | tickChannels
  | checkInterrupts
  | instruction
  | masterClear
  | outside (io : IoWorld σ)

def step (cs : IopChannels σ) : Event σ → IopCpu σ → Except Exn (IopCpu σ)
  | .tickChannels, c => (cs.tickChannels c.io).map fun io => { c with io := io }
  | .checkInterrupts, c => .ok (c.checkInterrupts cs)
  | .instruction, c => (c.singleStep cs).map Prod.fst
  | .masterClear, c => .ok (c.masterClear cs)
  | .outside io, c => .ok { c with io := io }

theorem burst_run {n : Nat} {c c' : IopCpu σ} (h : burst cs n c = .ok c') :
    ∃ k, run (step cs) (List.replicate k .instruction) c = .ok c' := by
  induction n generalizing c with
  | zero => exact ⟨0, h⟩
  | succ n ih =>
    obtain ⟨⟨c₁, isLast⟩, hone, hrest⟩ := exists_of_bind h
    have hstep : step cs .instruction c = .ok c₁ := by rw [step, hone]; rfl
    cases isLast with
    | true =>
      obtain rfl : c₁ = c' := Except.ok.inj hrest
      exact ⟨1, EventRun.run_cons hstep⟩
    | false =>
      obtain ⟨k, hrun⟩ := ih hrest
      exact ⟨k + 1, (EventRun.run_cons hstep).trans hrun⟩

theorem tick_run {mInstructionBurstSize : Nat} {c c' : IopCpu σ}
    (h : c.tick cs mInstructionBurstSize = .ok c') :
    ∃ es, run (step cs) es c = .ok c' ∧ ∀ e ∈ es, e ≠ .masterClear := by
  obtain ⟨io, htick, hrest⟩ := exists_of_bind h
  have hchannels : step cs .tickChannels c = .ok { c with io := io } := by rw [step, htick]; rfl
  by_cases hstall : cs.stallIop io = true
  · rw [if_pos hstall] at hrest
    obtain rfl := Except.ok.inj hrest
    exact ⟨[.tickChannels], EventRun.run_cons hchannels, by simp⟩
  rw [if_neg hstall] at hrest
  have hcheck : step cs .checkInterrupts { c with io := io } =
      .ok ({ c with io := io }.checkInterrupts cs) := rfl
  by_cases hreset : ({ c with io := io }.checkInterrupts cs).InReset = true
  · rw [if_pos hreset] at hrest
    obtain rfl := Except.ok.inj hrest
    exact ⟨[.tickChannels, .checkInterrupts],
      (EventRun.run_cons hchannels).trans (EventRun.run_cons hcheck), by simp⟩
  · rw [if_neg hreset] at hrest
    obtain ⟨k, hrun⟩ := burst_run hrest
    refine ⟨.tickChannels :: .checkInterrupts :: List.replicate k .instruction, ?_, ?_⟩
    · exact (EventRun.run_cons hchannels).trans ((EventRun.run_cons hcheck).trans hrun)
    · intro e he
      simp only [List.mem_cons, List.mem_replicate] at he
      rcases he with rfl | rfl | ⟨-, rfl⟩ <;> simp

/-! ## 2. What an instruction means to the flag -/

/-- Branches: `EXIT` and the jumps and calls. -/
def isBranch (f : Nat) : Bool := f = 0o001 ∨ isJump f

/-- I/O instructions: the channel tests and the channel functions. -/
def isChannel (f : Nat) : Bool := f / 4 = 0o10 ∨ isIo f

def kindOf (f : Nat) : Action :=
  if f = 0o002 then .clear
  else if f = 0o003 then .set
  else if isBranch f || isChannel f then .hold
  else .complete

theorem kindOf_cases (f : Nat) :
    kindOf f = .clear ∨ kindOf f = .set ∨ kindOf f = .hold ∨ kindOf f = .complete := by
  unfold kindOf
  split
  · exact .inl rfl
  split
  · exact .inr (.inl rfl)
  split
  · exact .inr (.inr (.inl rfl))
  · exact .inr (.inr (.inr rfl))

/-- The function of the instruction at `P`. -/
def fetched (c : IopCpu σ) : Nat := functionOf (c.io.mIoMemory c.P)

/-- The channel of a channel function at `P`. -/
def addressed (c : IopCpu σ) : Nat :=
  if c.fetched / 16 = 6 then (designatorOf (c.io.mIoMemory c.P)).toNat else c.regs.B.toNat

def view (cs : IopChannels σ) (c : IopCpu σ) : Event σ → Action
  | .instruction => kindOf c.fetched
  | .checkInterrupts => if c.I && (cs.findInterrupt c.io).isSome then .taken else .idle
  | .masterClear => .reset
  | .tickChannels => .idle
  | .outside _ => .idle

/-- A channel function addresses a channel that exists, at least while `I = 1` waits. -/
def Addressed (cs : IopChannels σ) (c : IopCpu σ) : Event σ → Prop
  | .instruction => c.ISetIsWaiting → isIo c.fetched → cs.present c.addressed
  | _ => True

def latch (c : IopCpu σ) : Latch := ⟨c.I, c.ISetIsWaiting⟩

/-! ## 3. The decoders -/

/-- What a decoder has to do for an instruction: nothing that the instruction is not for, and the
    delay flag where the flag has to wait. -/
def Delays (f : Nat) (c : IopCpu σ) (r : IopDecoded σ) : Prop :=
  match kindOf f with
  | .clear => r.cpu.latch = ⟨false, false⟩
  | .set => r.cpu.latch = follow .set c.latch ∧ r.aDelayISet = true
  | .hold => r.cpu.latch = c.latch ∧ (r.aDelayISet = true ∨ c.ISetIsWaiting = false)
  | _ => r.cpu.latch = c.latch ∧ r.aDelayISet = false

variable {c : IopCpu σ} {r : IopDecoded σ} {f : Nat} {d : BitVec 9} {k : IopInt}

theorem latch_jump (code : Nat) : (c.jump code d k).latch = c.latch := by
  have hfetch : (c.requestFetch d).latch = c.latch := by
    unfold requestFetch
    split <;> rfl
  unfold jump
  split
  · rfl
  · rfl
  · rfl
  · rfl
  · exact hfetch
  · exact hfetch
  · exact hfetch
  · exact hfetch

theorem decodeJump_hold : (c.decodeJump f d k).cpu.latch = c.latch ∧
    (c.decodeJump f d k).aDelayISet = true := by
  unfold decodeJump
  by_cases h : c.condition f = true
  · simp only [if_pos h]
    exact ⟨latch_jump _, trivial⟩
  · simp only [if_neg h]
    exact ⟨trivial, trivial⟩

theorem lookup_eq {channel : Nat} {isThere : Bool} (h : cs.lookup channel = .ok isThere) :
    isThere = cs.present channel := by
  unfold IopChannels.lookup at h
  split at h
  · exact (Except.ok.inj h).symm
  · exact absurd h (by simp)

theorem performIo_hold {channel function : Nat} (h : c.performIo cs channel function = .ok r) :
    r.cpu.latch = c.latch ∧ r.aDelayISet = true := by
  obtain ⟨w, -, hrest⟩ := exists_of_bind h
  obtain rfl := Except.ok.inj hrest
  exact ⟨rfl, rfl⟩

theorem decodeIo_hold (h : c.decodeIo cs f d = .ok r)
    (hpresent : c.ISetIsWaiting → cs.present (if f / 16 = 6 then d.toNat else c.regs.B.toNat)) :
    r.cpu.latch = c.latch ∧ (r.aDelayISet = true ∨ c.ISetIsWaiting = false) := by
  obtain ⟨isThere, hlookup, hrest⟩ := exists_of_bind h
  have hthere := lookup_eq hlookup
  cases isThere with
  | true =>
    obtain ⟨hlatch, hdelay⟩ := performIo_hold hrest
    exact ⟨hlatch, .inl hdelay⟩
  | false =>
    have hidle : c.ISetIsWaiting = false := by
      cases hw : c.ISetIsWaiting with
      | false => rfl
      | true => exact absurd (hpresent hw) (by simp [← hthere])
    simp only [Bool.not_false, if_true] at hrest
    split at hrest
    · exact absurd hrest (by simp [throw, throwThe, MonadExceptOf.throw, bind, Except.bind])
    · obtain rfl := Except.ok.inj hrest
      exact ⟨rfl, .inr hidle⟩

theorem testChannel_hold {useB : Bool} {get : Nat → IoWorld σ → IopInt}
    (h : c.testChannel cs useB d get = .ok r) :
    r.cpu.latch = c.latch ∧ r.aDelayISet = true ∧ r.cpu.io.pxs = c.io.pxs := by
  obtain ⟨isThere, -, hrest⟩ := exists_of_bind h
  cases isThere with
  | false => exact absurd hrest (by simp [throw, throwThe, MonadExceptOf.throw, bind, Except.bind])
  | true =>
    obtain ⟨isThere, -, hrest⟩ := exists_of_bind hrest
    obtain rfl := Except.ok.inj hrest
    exact ⟨rfl, rfl, rfl⟩

/-- The instructions that only compute let `I = 1` take effect. -/
theorem kindOf_other (h1 : f ≠ 0o001) (h2 : f ≠ 0o002) (h3 : f ≠ 0o003) (h40 : f ≠ 0o040)
    (h41 : f ≠ 0o041) (h42 : f ≠ 0o042) (h43 : f ≠ 0o043) (hjump : isJump f = false)
    (hio : isIo f = false) : kindOf f = .complete := by
  have hbranch : isBranch f = false := by simp [isBranch, hjump, h1]
  have htest : ¬ f / 4 = 0o10 := by omega
  have hchannel : isChannel f = false := by simp [isChannel, hio, htest]
  rw [kindOf, if_neg h2, if_neg h3, hbranch, hchannel]
  rfl

theorem decodeOther_delays (h : c.decodeOther cs f d k = .ok r) (hjump : isJump f = false)
    (hio : isIo f = false) : Delays f c r := by
  unfold decodeOther at h
  split at h
  case h_4 | h_5 | h_6 | h_7 =>
    obtain ⟨hlatch, hdelay, -⟩ := testChannel_hold h
    exact ⟨hlatch, .inl hdelay⟩
  · obtain rfl := Except.ok.inj h
    exact ⟨rfl, .inl rfl⟩
  · obtain rfl := Except.ok.inj h
    rfl
  · obtain rfl := Except.ok.inj h
    exact ⟨rfl, rfl⟩
  · rename_i h1 h2 h3 h40 h41 h42 h43
    obtain ⟨w, -, hrest⟩ := exists_of_bind h
    obtain rfl := Except.ok.inj hrest
    rw [Delays, kindOf_other h1 h2 h3 h40 h41 h42 h43 hjump hio]
    exact ⟨rfl, rfl⟩

theorem kindOf_hold (hf : f ≠ 0o002 ∧ f ≠ 0o003) (h : isJump f = true ∨ isIo f = true) :
    kindOf f = .hold := by
  rw [kindOf, if_neg hf.1, if_neg hf.2, if_pos]
  rcases h with h | h <;> simp [isBranch, isChannel, h]

/-- **The decoders**: each raises the delay flag where the flag has to wait. -/
theorem decode_delays {p q : IopInt} (h : c.decode cs p q = .ok r)
    (hpresent : c.ISetIsWaiting → isIo (functionOf p) → cs.present
      (if functionOf p / 16 = 6 then (designatorOf p).toNat else c.regs.B.toNat)) :
    Delays (functionOf p) c r := by
  unfold decode at h
  by_cases hjump : isJump (functionOf p) = true
  · rw [if_pos hjump] at h
    obtain rfl := Except.ok.inj h
    have hcode : functionOf p / 8 = 0o7 ∨ functionOf p / 32 = 2 := by simpa [isJump] using hjump
    rw [Delays, kindOf_hold ⟨by omega, by omega⟩ (.inl hjump)]
    exact ⟨decodeJump_hold.1, .inl decodeJump_hold.2⟩
  rw [if_neg hjump] at h
  by_cases hio : isIo (functionOf p) = true
  · rw [if_pos hio] at h
    have hcode : 6 ≤ functionOf p / 16 := by simpa [isIo] using hio
    rw [Delays, kindOf_hold ⟨by omega, by omega⟩ (.inr hio)]
    exact decodeIo_hold h fun hw => hpresent hw hio
  · rw [if_neg hio] at h
    exact decodeOther_delays h (by simpa using hjump) (by simpa using hio)

/-! ## 4. One event -/

/-- An instruction, with the delayed enable behind its decoder. -/
theorem singleStep_latch {c' : IopCpu σ} {isLast : Bool} (h : c.singleStep cs = .ok (c', isLast))
    (haddressed : Addressed cs c .instruction) :
    c'.latch = follow (kindOf c.fetched) c.latch := by
  obtain ⟨r, hdecode, hrest⟩ := exists_of_bind h
  have hdelays : Delays c.fetched c r := decode_delays hdecode haddressed
  have hafter : c'.latch =
      if !r.aDelayISet && r.cpu.latch.waiting then ⟨true, false⟩ else r.cpu.latch := by
    obtain ⟨rfl, -⟩ := Prod.mk.inj (Except.ok.inj hrest)
    change latch { (if !r.aDelayISet && r.cpu.ISetIsWaiting then _ else _ : IopCpu σ) with P := _ }
      = if !r.aDelayISet && r.cpu.ISetIsWaiting then _ else _
    split <;> rfl
  rw [hafter]
  unfold Delays at hdelays
  rcases kindOf_cases c.fetched with hkind | hkind | hkind | hkind
  · rw [hkind] at hdelays ⊢
    simp only [hdelays, follow, Bool.and_false, Bool.false_eq_true, if_false]
  · rw [hkind] at hdelays ⊢
    simp only [hdelays.2, hdelays.1, Bool.not_true, Bool.false_and, Bool.false_eq_true, if_false]
  · rw [hkind] at hdelays ⊢
    obtain ⟨hlatch, hdelay | hidle⟩ := hdelays
    · simp only [hlatch, hdelay, follow, Bool.not_true, Bool.false_and, Bool.false_eq_true,
        if_false]
    · have hwaiting : c.latch.waiting = false := hidle
      simp only [hlatch, hwaiting, follow, Bool.and_false, Bool.false_eq_true, if_false]
  · rw [hkind] at hdelays ⊢
    simp only [hdelays.1, hdelays.2, follow, Bool.not_false, Bool.true_and]

theorem checkInterrupts_latch :
    (c.checkInterrupts cs).latch = follow (view cs c .checkInterrupts) c.latch := by
  cases hI : c.I with
  | false =>
    have hnone : c.checkInterrupts cs = c := if_neg (by simp [hI])
    rw [hnone, view, hI]
    rfl
  | true =>
    rw [checkInterrupts, if_pos hI, view, hI]
    cases hfind : cs.findInterrupt c.io with
    | none => rfl
    | some i => rfl

/-- **One event** does to the flag what it means. -/
theorem step_latch {c' : IopCpu σ} {e : Event σ} (h : step cs e c = .ok c')
    (haddressed : Addressed cs c e) : c'.latch = follow (view cs c e) c.latch := by
  cases e with
  | tickChannels =>
    rcases hio : cs.tickChannels c.io with e | io
    · rw [step, hio] at h
      exact absurd h (by simp [Except.map])
    · rw [step, hio] at h
      obtain rfl := Except.ok.inj h
      rfl
  | checkInterrupts =>
    obtain rfl := Except.ok.inj h
    exact checkInterrupts_latch
  | instruction =>
    rcases hone : c.singleStep cs with e | ⟨c₁, isLast⟩
    · rw [step, hone] at h
      exact absurd h (by simp [Except.map])
    · rw [step, hone] at h
      obtain rfl := Except.ok.inj h
      exact singleStep_latch hone haddressed
  | masterClear =>
    obtain rfl := Except.ok.inj h
    rfl
  | outside io =>
    obtain rfl := Except.ok.inj h
    rfl

/-! ## 5. Runs -/

theorem run_latch {es : List (Event σ)} {c' : IopCpu σ}
    (h : Along (step cs) (Addressed cs) es c) (hrun : run (step cs) es c = .ok c') :
    c'.latch = followAll (trace (step cs) (view cs) es c) c.latch := by
  refine EventRun.run_refines (R := fun c l => latch c = l) ?_ rfl h hrun
  intro c l e c' hl haddressed hstep
  rw [step_latch hstep haddressed, hl]

/-- **The delayed enable**: where every channel function executed while `I = 1` waits addresses a
    channel that exists, the flag goes up, a master clear apart, exactly when an instruction
    completes that is neither a branch nor for a channel, with `I = 1` executed before and nothing
    since but instructions that hold it back, further `I = 1`, and interrupts. -/
theorem enabled_later (cs : IopChannels σ) (es : List (Event σ)) (e : Event σ)
    (c c' c'' : IopCpu σ) (hc : c.ISetIsWaiting = false)
    (h : Along (step cs) (Addressed cs) (es ++ [e]) c) (hrun : run (step cs) es c = .ok c')
    (hstep : step cs e c' = .ok c'') (hI : c'.I = false) :
    c''.I = true ↔
      (view cs c' e = .complete ∧
        ∃ before after, trace (step cs) (view cs) es c = before ++ .set :: after ∧
          ∀ a ∈ after, outlasts a = true) ∨
      view cs c' e = .reset := by
  obtain ⟨hbefore, hlast⟩ := h.append_one hrun
  have hlatch := run_latch hbefore hrun
  have hwaiting := DelayedEnable.waiting_iff (l := c.latch) hc (trace (step cs) (view cs) es c)
  rw [← hlatch] at hwaiting
  rw [← hwaiting]
  have hrises := DelayedEnable.enabled_rises_iff (a := view cs c' e) (l := c'.latch) hI
  rw [← step_latch hstep hlast] at hrises
  exact hrises

/-- No channels but those the processor has itself. -/
def noChannels : IopChannels Unit :=
  { size := 42
    installed := fun _ => false
    ioRequest := fun _ _ _ w => .ok (0, w)
    busy := fun _ _ => 0, done := fun _ _ => 0, interrupt := fun _ _ => 0
    masterClear := id, tickChannels := .ok, stallIop := fun _ => false }

/-- A processor with interrupts disabled in front of these two instructions. -/
def running (first second : IopInt) : IopCpu Unit :=
  { regs := { A := 0, Carry := 0, B := 0, OperandRegisters := fun _ => 0 }
    P := 0, I := false, ISetIsWaiting := false, InReset := false
    io :=
      { mIoMemory := fun a => if a = 0 then first else if a = 1 then second else 0
        pfr := ⟨0, false, false⟩, pxs := ChannelPXS.masterClear, devices := () } }

/-- `I = 1`. -/
def setI : IopInt := 0o003000

/-- `PASS` lets the flag go up. -/
theorem enabled_later_pass :
    { running setI 0 with P := 2, I := true }.I = true ↔
      (view noChannels { running setI 0 with P := 1, ISetIsWaiting := true } .instruction =
          .complete ∧
        ∃ before after, trace (step noChannels) (view noChannels) [.instruction] (running setI 0) =
          before ++ .set :: after ∧ ∀ a ∈ after, outlasts a = true) ∨
      view noChannels { running setI 0 with P := 1, ISetIsWaiting := true } .instruction = .reset :=
  enabled_later noChannels [.instruction] .instruction (running setI 0)
    { running setI 0 with P := 1, ISetIsWaiting := true } { running setI 0 with P := 2, I := true }
    rfl (.cons (fun h => absurd h (by decide)) rfl ⟨fun _ h => absurd h (by decide),
      fun _ _ => trivial⟩) rfl rfl rfl

/-- Function 0 on channel 050, which does not exist. -/
def clearChannel050 : IopInt := 0o140050

/-- The flag goes up behind a channel function. -/
theorem not_enabled_later_noChannel : ¬ ∀ (cs : IopChannels Unit) (es : List (Event Unit))
    (e : Event Unit) (c c' c'' : IopCpu Unit), c.ISetIsWaiting = false →
      run (step cs) es c = .ok c' → step cs e c' = .ok c'' → c'.I = false →
        c''.I = true → view cs c' e = .complete ∨ view cs c' e = .reset := by
  intro h
  have hview := h noChannels [.instruction] .instruction (running setI clearChannel050)
    { running setI clearChannel050 with P := 1, ISetIsWaiting := true }
    { running setI clearChannel050 with P := 2, I := true } rfl rfl rfl rfl rfl
  exact absurd hview (by decide)

end IopCpu

end CraySim
