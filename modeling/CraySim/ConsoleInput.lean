/-
  Subject:   What the console reads.

  The state of the telnet machine, the character that waits and the connection are variables of
  their own, and closing a connection resets the last one only. A connection that ends between two
  commands, with nothing waiting, leaves the others as the next one needs them.

  * `characters` -- the characters of a connection,
  * `InputOk` -- what was handed out is what was received,
  * `InputInv` -- the same with how far the machine has got in the connection there is,
  * `Proper` -- where a connection may end, which socket accepts, and the commands the console
    knows,
  * `Goes` -- a step goes through and keeps the invariant,
  * `input_always` -- a run of such steps hands out what it received.
-/
import CraySim.Console
import CraySim.Lib.EscapedStream

namespace CraySim

open EscapedStream

/-! ## 1. What is asked for -/

/-- Telnet's commands. -/
def telnet : Escapes (BitVec 8) where
  escape := TelnetCodes.iac
  takesMore b := (OptionCode.ofByte b).isSome

namespace ConsoleConfig

variable (c : ConsoleConfig)

/-- What becomes of a byte of data. -/
def clean (b : BitVec 8) : Option (BitVec 8) :=
  if c.mEatLF && b = 0x0a || c.mEatNull && b = 0x00 then none
  else if c.mMapBackspace && (b = 0x08 || b = 0x7f) then some c.mBackspaceChar
  else some b

theorem filterMap_clean (b : BitVec 8) :
    [b].filterMap c.clean =
      if (!(c.mEatLF && b = 0x0a) && !(c.mEatNull && b = 0x00)) = true then
        [if c.mMapBackspace && (b = 0x08 || b = 0x7f) then c.mBackspaceChar else b]
      else [] := by
  rw [List.filterMap_cons, List.filterMap_nil, clean]
  cases c.mEatLF && b = 0x0a <;> cases c.mEatNull && b = 0x00 <;>
    cases c.mMapBackspace && (b = 0x08 || b = 0x7f) <;> rfl

theorem clean_iac : c.clean TelnetCodes.iac = some TelnetCodes.iac := by
  simp [clean, TelnetCodes.iac]

/-- The characters of a connection. -/
def characters (bytes : List (BitVec 8)) : List (BitVec 8) :=
  (stripped telnet bytes).filterMap c.clean

/-- What comes behind the first bytes adds its own characters. -/
theorem characters_append (bytes more : List (BitVec 8)) :
    c.characters (bytes ++ more) = c.characters bytes ++
      (scan telnet (scan telnet .data bytes).1 more).2.filterMap c.clean := by
  rw [characters, characters, ← scan_eq_stripped, ← scan_eq_stripped, scan_append,
    List.filterMap_append]

end ConsoleConfig

/-- What the state waits for. -/
def TelnetStates.phase : TelnetStates → Phase
  | .waitIAC => .data
  | .waitAction => .command
  | .waitOption => .more

namespace Console

open EventRun (run Along)

/-- The bytes of one connection. -/
def bytesOf (n : Nat) (history : List (Nat × BitVec 8)) : List (BitVec 8) :=
  (history.filter fun e => e.1 = n).map Prod.snd

/-- The character that waits for `GetChar`, if it is the connection's. -/
def waiting (s : Console) (n : Nat) : List (BitVec 8) :=
  if s.mReceiveFull = true ∧ s.mConnectionSocket = some n then [s.mReceiveBuf] else []

theorem waiting_eq_nil {s : Console} {n : Nat} (hfull : s.mReceiveFull = false) :
    s.waiting n = [] := by
  rw [waiting, hfull]
  rfl

/-- Of every connection, the one there is or an earlier one, the characters that were handed out
    are those it sent, in order, the last of which may wait. -/
structure InputOk (c : ConsoleConfig) (s : Console) : Prop where
  handed : ∀ n, bytesOf n s.handed ++ s.waiting n = c.characters (bytesOf n s.received)

/-- A run does not throw, and hands out what it received. -/
def InputFine (c : ConsoleConfig) (events : List Event) : Prop :=
  (∀ e, run (step c) events constructed ≠ .error (.thrown e)) ∧
    ∀ s, run (step c) events constructed = .ok s → InputOk c s

/-! ## 2. The bytes of one connection -/

section bytes

variable {n : Nat} {history : List (Nat × BitVec 8)}

theorem bytesOf_append (n : Nat) (history more : List (Nat × BitVec 8)) :
    bytesOf n (history ++ more) = bytesOf n history ++ bytesOf n more := by
  simp [bytesOf]

theorem bytesOf_map_self (n : Nat) (bytes : List (BitVec 8)) :
    bytesOf n (bytes.map fun b => (n, b)) = bytes := by
  induction bytes with
  | nil => rfl
  | cons b bytes ih => simpa [bytesOf] using ih

theorem bytesOf_eq_nil (h : ∀ e ∈ history, e.1 ≠ n) : bytesOf n history = [] := by
  simpa [bytesOf] using fun m b hmem => h (m, b) hmem

theorem bytesOf_map_ne {m : Nat} (h : m ≠ n) (bytes : List (BitVec 8)) :
    bytesOf n (bytes.map fun b => (m, b)) = [] := by
  refine bytesOf_eq_nil fun e he => ?_
  obtain ⟨b, -, rfl⟩ := List.mem_map.mp he
  exact h

end bytes

/-! ## 3. The invariant -/

/-- What reading is about. -/
def input (s : Console) : (Option Nat × Nat × Bool × List Nat × List Nat) ×
    (BitVec 8 × Bool × TelnetStates × BitVec 8) × List (Nat × BitVec 8) × List (Nat × BitVec 8) :=
  ((s.mConnectionSocket, s.sockets, s.mAccepted, s.accepts, s.reads),
    (s.mReceiveBuf, s.mReceiveFull, s.mTelnetState, s.mTelnetAction), s.received, s.handed)

/-- The end of a `ReadHandler`, behind its answer. -/
def Action.settles : Action → Bool
  | .settle _ _ => true
  | _ => false

/-- The `ReadHandler`s that answer an option command. -/
def settling (s : Console) : Nat := s.todo.countP Action.settles

/-- How far the machine is in the stream; an option command is over before its answer is. -/
def phase (s : Console) : Phase := if s.settling = 0 then s.mTelnetState.phase else .data

/-- A socket that the console has or had. -/
def Numbered (s : Console) (n : Nat) : Prop :=
  s.mConnectionSocket = some n ∨ n ∈ s.accepts ∨ n ∈ s.reads ∨ ∃ b, (n, b) ∈ s.received

/-- A console at the beginning of a stream. -/
def BetweenCommands (s : Console) : Prop := s.mTelnetState = .waitIAC ∧ s.mReceiveFull = false

/-- In the connection there is, one of three goes on with the next byte: the read that is begun,
    the `GetChar` to come, or the `ReadHandler` that answers. -/
structure InputInv (c : ConsoleConfig) (s : Console) : Prop where
  handed : ∀ n, bytesOf n s.handed ++ s.waiting n = c.characters (bytesOf n s.received)
  phase : ∀ n, s.mConnectionSocket = some n →
    (scan telnet .data (bytesOf n s.received)).1 = s.phase
  settling : s.settling ≠ 0 → s.mTelnetState = .waitOption
  action : s.mTelnetState = .waitOption → (OptionCode.ofByte s.mTelnetAction).isSome = true
  token : ∀ n, s.mConnectionSocket = some n →
    s.reads.count n + s.mReceiveFull.toNat + s.settling = s.mAccepted.toNat
  numbered : ∀ n, s.Numbered n → n < s.sockets
  accepts : s.accepts.Nodup
  accepted : ∀ n ∈ s.accepts, s.mConnectionSocket = some n → s.mAccepted = false
  unused : s.mConnectionSocket = none →
    s.accepts = [] ∧ s.reads = [] ∧ s.writes = [] ∧ s.mAccepted = false ∧ s.BetweenCommands

/-- The byte of a read, before its handler runs. -/
def taken (s : Console) (n : Nat) (b : BitVec 8) : Console :=
  { s with
    reads := s.reads.erase n
    mReceiveBuf := b
    received := s.received ++ [(n, b)] }

/-- A command the console knows: an escaped 255, an option command or the keep-alive. -/
def Command (b : BitVec 8) : Prop :=
  b = TelnetCodes.iac ∨ (OptionCode.ofByte b).isSome = true ∨ b = TelnetCodes.nop

/-- The first accept in hand was begun with the socket there is; `CloseSocket` has not destroyed its
    socket since. -/
def AcceptsHere (s : Console) : Prop := ∀ n ∈ s.accepts.head?, s.mConnectionSocket = some n

/-- A connection is accepted into the socket there is. A byte comes from the connection there is, and
    a command is one the console knows; a connection ends, or what is left of one, between two
    commands and with no character waiting. -/
def Proper (s : Console) : Event → Prop
  | .completes .accepted => s.AcceptsHere
  | .completes (.read n b) =>
    s.mConnectionSocket = some n ∧ (s.mTelnetState = .waitAction → Command b)
  | .completes .keepAliveFailed => s.AcceptsHere ∧ s.BetweenCommands
  | .completes .acceptFailed | .completes (.readFailed _) | .completes (.writeFailed _) =>
    s.BetweenCommands
  | _ => True

/-- A step cannot happen, or goes through and keeps the invariant. -/
def Goes (c : ConsoleConfig) : Except Stop Console → Prop
  | .error e => e = .impossible
  | .ok s => InputInv c s

namespace InputInv

variable {s s' : Console} {c : ConsoleConfig}

theorem ok (h : InputInv c s) : InputOk c s := ⟨h.handed⟩

theorem settling_eq_zero (h : InputInv c s) (hstate : s.mTelnetState = .waitIAC) :
    s.settling = 0 :=
  Classical.byContradiction fun hne => by
    have hwait := h.settling hne
    rw [hstate] at hwait
    exact absurd hwait (by decide)

theorem same (h : InputInv c s) (hinput : s'.input = s.input) (hsettling : s'.settling = s.settling)
    (hwrites : s'.mConnectionSocket = none → s'.writes = []) : InputInv c s' := by
  have hphase : s'.phase = s.phase := by
    simp only [input, Prod.mk.injEq] at hinput
    rw [Console.phase, Console.phase, hsettling, hinput.2.1.2.2.1]
  cases s
  cases s'
  simp only [input, Prod.mk.injEq] at hinput
  obtain ⟨⟨rfl, rfl, rfl, rfl, rfl⟩, ⟨rfl, rfl, rfl, rfl⟩, rfl, rfl⟩ := hinput
  refine ⟨h.handed, fun n hn => (h.phase n hn).trans hphase.symm, fun hne => h.settling ?_, h.action,
    fun n hn => ?_, h.numbered, h.accepts, h.accepted, fun hnone => ?_⟩
  · rwa [hsettling] at hne
  · rw [hsettling]
    exact h.token n hn
  · obtain ⟨haccepts, hreads, -, hrest⟩ := h.unused hnone
    exact ⟨haccepts, hreads, hwrites hnone, hrest⟩

theorem writes (h : InputInv c s) : s.mConnectionSocket = none → s.writes = [] :=
  fun hnone => (h.unused hnone).2.2.1

/-- A socket that is listened on takes the place of the one there was, between two commands. -/
theorem listens (h : InputInv c s) (hbetween : s.BetweenCommands)
    (hsocket : s'.mConnectionSocket = some s.sockets) (hsockets : s'.sockets = s.sockets + 1)
    (haccepted : s'.mAccepted = false)
    (haccepts : s'.accepts.Sublist (s.accepts ++ [s.sockets]))
    (hreads : ∀ n ∈ s'.reads, n ∈ s.reads)
    (hstate : (s'.mReceiveFull, s'.mTelnetState, s'.mTelnetAction) =
      (s.mReceiveFull, s.mTelnetState, s.mTelnetAction))
    (hhistory : (s'.received, s'.handed) = (s.received, s.handed))
    (hsettling : s'.settling = s.settling) : InputInv c s' := by
  simp only [Prod.mk.injEq] at hstate hhistory
  obtain ⟨hfull, hstate, haction⟩ := hstate
  obtain ⟨hreceived, hhanded⟩ := hhistory
  have hnone : s'.settling = 0 := hsettling.trans (h.settling_eq_zero hbetween.1)
  have hnew : ¬ s.Numbered s.sockets := fun hn => absurd (h.numbered _ hn) (Nat.lt_irrefl _)
  refine ⟨fun n => ?_, fun n hn => ?_, fun hne => absurd hnone hne, fun hwait => ?_, fun n hn => ?_,
    fun n hn => ?_, ?_, fun _ _ _ => haccepted, fun hnone => ?_⟩
  · have hold : s.waiting n = [] := waiting_eq_nil hbetween.2
    have hnext : s'.waiting n = [] := waiting_eq_nil (hfull.trans hbetween.2)
    rw [hhanded, hreceived, hnext, ← hold]
    exact h.handed n
  · obtain rfl : s.sockets = n := Option.some.inj (hsocket.symm.trans hn)
    have hnil : bytesOf s.sockets s.received = [] := bytesOf_eq_nil fun e he heq =>
      hnew (.inr (.inr (.inr ⟨e.2, heq ▸ he⟩)))
    rw [hreceived, hnil, scan_nil, Console.phase, if_pos hnone, hstate, hbetween.1]
    rfl
  · rw [haction]
    exact h.action (hstate.symm.trans hwait)
  · obtain rfl : s.sockets = n := Option.some.inj (hsocket.symm.trans hn)
    have hcount : s'.reads.count s.sockets = 0 := List.count_eq_zero.mpr fun hmem =>
      hnew (.inr (.inr (.inl (hreads _ hmem))))
    rw [hcount, hnone, hfull, hbetween.2, haccepted]
    rfl
  · have hold : s.Numbered n ∨ n = s.sockets := by
      rcases hn with hn | hn | hn | ⟨b, hn⟩
      · exact .inr (Option.some.inj (hn.symm.trans hsocket))
      · rcases List.mem_append.mp (haccepts.subset hn) with hn | hn
        · exact .inl (.inr (.inl hn))
        · exact .inr (List.mem_singleton.mp hn)
      · exact .inl (.inr (.inr (.inl (hreads n hn))))
      · exact .inl (.inr (.inr (.inr ⟨b, hreceived ▸ hn⟩)))
    rw [hsockets]
    rcases hold with hold | rfl
    · exact Nat.lt_succ_of_lt (h.numbered n hold)
    · exact Nat.lt_succ_self _
  · refine List.Nodup.sublist haccepts (List.nodup_append.mpr ⟨h.accepts, by simp, ?_⟩)
    intro n hn m hm
    rw [List.mem_singleton] at hm
    subst hm
    rintro rfl
    exact hnew (.inr (.inl hn))
  · exact absurd (hsocket.symm.trans hnone) (by simp)

/-- The connection there is goes on: it received the first bytes and handed out the others. -/
theorem advances {n : Nat} (h : InputInv c s) (new out : List (BitVec 8))
    (hn : s.mConnectionSocket = some n) (haccepted : s.mAccepted = true)
    (hconnection : (s'.mConnectionSocket, s'.sockets, s'.mAccepted, s'.accepts) =
      (s.mConnectionSocket, s.sockets, s.mAccepted, s.accepts))
    (hreceived : s'.received = s.received ++ new.map fun b => (n, b))
    (hhanded : s'.handed = s.handed ++ out.map fun b => (n, b))
    (hreads : ∀ m ∈ s'.reads, m ∈ s.reads ∨ m = n)
    (hdata : out ++ s'.waiting n =
      s.waiting n ++ (scan telnet s.phase new).2.filterMap c.clean)
    (hphase : (scan telnet s.phase new).1 = s'.phase)
    (hsettling : s'.settling ≠ 0 → s'.mTelnetState = .waitOption)
    (haction : s'.mTelnetState = .waitOption → (OptionCode.ofByte s'.mTelnetAction).isSome = true)
    (htoken : s'.reads.count n + s'.mReceiveFull.toNat + s'.settling = 1) : InputInv c s' := by
  simp only [Prod.mk.injEq] at hconnection
  obtain ⟨hsocket, hsockets, haccepted', haccepts⟩ := hconnection
  have hbytes : bytesOf n s'.received = bytesOf n s.received ++ new := by
    rw [hreceived, bytesOf_append, bytesOf_map_self]
  refine ⟨fun m => ?_, fun m hm => ?_, hsettling, haction, fun m hm => ?_, fun m hm => ?_, ?_, ?_,
    fun hnone => ?_⟩
  · by_cases hmn : n = m
    · subst hmn
      calc bytesOf n s'.handed ++ s'.waiting n
          = bytesOf n s.handed ++ (out ++ s'.waiting n) := by
            rw [hhanded, bytesOf_append, bytesOf_map_self, List.append_assoc]
        _ = c.characters (bytesOf n s.received) ++
              (scan telnet s.phase new).2.filterMap c.clean := by
            rw [hdata, ← List.append_assoc, h.handed]
        _ = c.characters (bytesOf n s'.received) := by
            rw [hbytes, c.characters_append, h.phase n hn]
    · have hold : s.waiting m = [] := by simp [waiting, hn, hmn]
      have hnew : s'.waiting m = [] := by simp [waiting, hsocket, hn, hmn]
      rw [hhanded, hreceived, bytesOf_append, bytesOf_append, bytesOf_map_ne hmn, bytesOf_map_ne hmn,
        List.append_nil, List.append_nil, hnew, ← hold]
      exact h.handed m
  · obtain rfl : n = m := Option.some.inj (hn.symm.trans (hsocket.symm.trans hm))
    rw [hbytes, scan_append, h.phase n hn]
    exact hphase
  · obtain rfl : n = m := Option.some.inj (hn.symm.trans (hsocket.symm.trans hm))
    rw [htoken, haccepted', haccepted]
    rfl
  · rw [hsockets]
    refine h.numbered m ?_
    rcases hm with hm | hm | hm | ⟨b, hm⟩
    · exact .inl (hsocket.symm.trans hm)
    · exact .inr (.inl (haccepts ▸ hm))
    · rcases hreads m hm with hm | rfl
      · exact .inr (.inr (.inl hm))
      · exact .inl hn
    · rw [hreceived] at hm
      rcases List.mem_append.mp hm with hm | hm
      · exact .inr (.inr (.inr ⟨b, hm⟩))
      · obtain ⟨b, -, heq⟩ := List.mem_map.mp hm
        exact .inl (hn.trans (congrArg some (congrArg Prod.fst heq)))
  · rw [haccepts]
    exact h.accepts
  · rw [haccepts, hsocket, haccepted']
    exact h.accepted
  · exact absurd (hn.symm.trans (hsocket.symm.trans hnone)) (by simp)

/-- Only one of the three goes on with the next byte. -/
theorem token_eq_one {n : Nat} (h : InputInv c s) (hn : s.mConnectionSocket = some n)
    (hpos : 0 < s.reads.count n + s.mReceiveFull.toNat + s.settling) :
    s.mAccepted = true ∧ s.reads.count n + s.mReceiveFull.toNat + s.settling = 1 := by
  rw [h.token n hn] at hpos ⊢
  cases hacc : s.mAccepted with
  | false => exact absurd hpos (by rw [hacc]; decide)
  | true => exact ⟨rfl, rfl⟩

theorem reads_one {n : Nat} (h : InputInv c s) (hn : s.mConnectionSocket = some n)
    (hmem : n ∈ s.reads) :
    s.reads.count n = 1 ∧ s.mReceiveFull = false ∧ s.settling = 0 ∧ s.mAccepted = true := by
  have hpos := List.count_pos_iff.mpr hmem
  obtain ⟨haccepted, hone⟩ := h.token_eq_one hn (by omega)
  exact ⟨by omega, Bool.toNat_eq_zero.mp (by omega), by omega, haccepted⟩

/-! ## 4. A byte -/

theorem goes_primeForReceive {n : Nat} (hn : s.mConnectionSocket = some n)
    (h : InputInv c { s with reads := s.reads ++ [n] }) : Goes c s.primeForReceive := by
  have hprime : s.primeForReceive = .ok { s with reads := s.reads ++ [n] } := by
    rw [primeForReceive, hn]
  rw [hprime]
  exact h

section byte

variable (hfull : s.mReceiveFull = false)
include hfull

theorem readHandler_waitIAC (hstate : s.mTelnetState = .waitIAC) :
    s.readHandler c =
      if s.mReceiveBuf = TelnetCodes.iac then
        { s with mTelnetState := .waitAction }.endReadHandler false
      else
        { s with
          mReceiveBuf :=
            if c.mMapBackspace && (s.mReceiveBuf = 0x08 || s.mReceiveBuf = 0x7f) then
              c.mBackspaceChar
            else s.mReceiveBuf }.endReadHandler
          (!(c.mEatLF && s.mReceiveBuf = 0x0a) && !(c.mEatNull && s.mReceiveBuf = 0x00)) := by
  rw [Console.readHandler, if_neg (by simp [hfull]), hstate]

theorem readHandler_waitAction (hstate : s.mTelnetState = .waitAction) :
    s.readHandler c =
      if (OptionCode.ofByte s.mReceiveBuf).isSome then
        { s with mTelnetAction := s.mReceiveBuf, mTelnetState := .waitOption }.endReadHandler false
      else
        { s with mTelnetAction := s.mReceiveBuf, mTelnetState := .waitIAC }.endReadHandler
          (s.mReceiveBuf ≠ TelnetCodes.nop) := by
  rw [Console.readHandler, if_neg (by simp [hfull]), hstate]

theorem readHandler_waitOption {aAction : OptionCode} (hstate : s.mTelnetState = .waitOption)
    (haction : OptionCode.ofByte s.mTelnetAction = some aAction) :
    ∃ top, s.readHandler c = .ok (s.push (top ++ [.settle aAction s.mReceiveBuf])) ∧
      top.countP Action.settles = 0 := by
  rw [Console.readHandler, if_neg (by simp [hfull]), hstate]
  simp only [haction]
  refine ⟨_, rfl, ?_⟩
  split <;> rfl

end byte

/-- A byte is received, and `ReadHandler` ends with it. -/
theorem endReadHandler {n : Nat} {b mReceiveBuf mTelnetAction : BitVec 8}
    {mTelnetState : TelnetStates} {ReceiveFull : Bool} (h : InputInv c s)
    (hn : s.mConnectionSocket = some n) (hmem : n ∈ s.reads)
    (hdata : (if ReceiveFull = true then [mReceiveBuf] else []) =
      (feed telnet s.mTelnetState.phase b).2.toList.filterMap c.clean)
    (hphase : (feed telnet s.mTelnetState.phase b).1 = mTelnetState.phase)
    (haction : mTelnetState = .waitOption → (OptionCode.ofByte mTelnetAction).isSome = true) :
    Goes c ({ s.taken n b with
      mReceiveBuf := mReceiveBuf
      mTelnetState := mTelnetState
      mTelnetAction := mTelnetAction }.endReadHandler ReceiveFull) := by
  obtain ⟨hcount, hfull, hsettling, haccepted⟩ := h.reads_one hn hmem
  have hscan : scan telnet s.phase [b] =
      ((feed telnet s.mTelnetState.phase b).1, (feed telnet s.mTelnetState.phase b).2.toList) := by
    rw [Console.phase, if_pos hsettling, scan, scan_nil, List.append_nil]
  have hempty : s.waiting n = [] := waiting_eq_nil hfull
  have hnew : (if s.settling = 0 then mTelnetState.phase else .data) = mTelnetState.phase :=
    if_pos hsettling
  have herase : (s.reads.erase n).count n = 0 := by rw [List.count_erase_self, hcount]
  have hsub : ∀ m ∈ s.reads.erase n, m ∈ s.reads := fun m hm => List.mem_of_mem_erase hm
  cases ReceiveFull with
  | true =>
    refine h.advances [b] [] hn haccepted rfl rfl (List.append_nil _).symm
      (fun m hm => .inl (hsub m hm)) ?_ ?_ (fun hne => absurd hsettling hne) haction ?_
    · rw [hempty, hscan, List.nil_append, List.nil_append, ← hdata]
      exact if_pos ⟨rfl, hn⟩
    · rw [hscan]
      exact hphase.trans hnew.symm
    · show (s.reads.erase n).count n + 1 + s.settling = 1
      rw [herase, hsettling]
  | false =>
    rw [Console.endReadHandler, if_neg (by decide)]
    refine goes_primeForReceive hn ?_
    refine h.advances [b] [] hn haccepted rfl rfl (List.append_nil _).symm
      (fun m hm => ?_) ?_ ?_ (fun hne => absurd hsettling hne) haction ?_
    · rcases List.mem_append.mp hm with hm | hm
      · exact .inl (hsub m hm)
      · exact .inr (List.mem_singleton.mp hm)
    · rw [hempty, hscan, List.nil_append, List.nil_append, ← hdata]
      exact if_neg fun hw => Bool.false_ne_true hw.1
    · rw [hscan]
      exact hphase.trans hnew.symm
    · show (s.reads.erase n ++ [n]).count n + 0 + s.settling = 1
      rw [List.count_append, herase, hsettling, List.count_singleton_self]

theorem readHandler {n : Nat} {b : BitVec 8} (h : InputInv c s)
    (hn : s.mConnectionSocket = some n) (hmem : n ∈ s.reads)
    (hcommand : s.mTelnetState = .waitAction → Command b) :
    Goes c ((s.taken n b).readHandler c) := by
  obtain ⟨hcount, hfull, hsettling, haccepted⟩ := h.reads_one hn hmem
  cases hstate : s.mTelnetState with
  | waitIAC =>
    have hnever : TelnetStates.waitIAC ≠ .waitOption := by decide
    rw [readHandler_waitIAC (s := s.taken n b) hfull hstate]
    split
    · rename_i hiac
      have hfeed : feed telnet .data b = (.command, none) := if_pos hiac
      refine h.endReadHandler hn hmem ?_ ?_ (fun hwait => absurd hwait (by decide))
      · rw [hstate, TelnetStates.phase, hfeed]
        rfl
      · rw [hstate, TelnetStates.phase, hfeed]
        rfl
    · rename_i hiac
      have hfeed : feed telnet .data b = (.data, some b) := if_neg hiac
      refine h.endReadHandler hn hmem ?_ ?_ (fun hwait => absurd (hstate.symm.trans hwait) hnever)
      · rw [hstate, TelnetStates.phase, hfeed]
        exact (c.filterMap_clean b).symm
      · rw [hstate, TelnetStates.phase, hfeed]
        exact congrArg TelnetStates.phase hstate.symm
  | waitAction =>
    have hphase : s.mTelnetState.phase = .command := congrArg TelnetStates.phase hstate
    rw [readHandler_waitAction (s := s.taken n b) hfull hstate]
    split
    · rename_i hoption
      have hne : b ≠ TelnetCodes.iac := by
        rintro rfl
        have hnone : (OptionCode.ofByte TelnetCodes.iac).isSome = false := rfl
        exact Bool.false_ne_true (hnone.symm.trans hoption)
      have hfeed : feed telnet .command b = (.more, none) :=
        (if_neg hne).trans (if_pos hoption)
      refine h.endReadHandler hn hmem ?_ ?_ (fun _ => hoption)
      · rw [hphase, hfeed]
        rfl
      · rw [hphase, hfeed]
        rfl
    · rename_i hoption
      rcases hcommand hstate with rfl | hoption' | rfl
      · have hfeed : feed telnet .command TelnetCodes.iac = (.data, some TelnetCodes.iac) := rfl
        refine h.endReadHandler hn hmem ?_ ?_ (fun hwait => absurd hwait (by decide))
        · rw [hphase, hfeed]
          exact congrArg Option.toList c.clean_iac.symm
        · rw [hphase, hfeed]
          rfl
      · exact absurd hoption' hoption
      · have hfeed : feed telnet .command TelnetCodes.nop = (.data, none) := rfl
        refine h.endReadHandler hn hmem ?_ ?_ (fun hwait => absurd hwait (by decide))
        · rw [hphase, hfeed]
          rfl
        · rw [hphase, hfeed]
          rfl
  | waitOption =>
    have hphase : s.phase = .more :=
      (if_pos hsettling).trans (congrArg TelnetStates.phase hstate)
    obtain ⟨aAction, haction⟩ := Option.isSome_iff_exists.mp (h.action hstate)
    obtain ⟨top, hread, htop⟩ :=
      readHandler_waitOption (s := s.taken n b) (c := c) hfull hstate haction
    have hnew : ((s.taken n b).push (top ++ [.settle aAction b])).settling = 1 := by
      show ((top ++ [Action.settle aAction b]) ++ s.todo).countP Action.settles = 1
      rw [List.countP_append, List.countP_append, htop]
      exact congrArg (0 + 1 + ·) hsettling
    rw [hread]
    have hdata : ((s.taken n b).push (top ++ [.settle aAction b])).phase = .data :=
      if_neg (by rw [hnew]; decide)
    refine h.advances [b] [] hn haccepted rfl rfl (List.append_nil _).symm
      (fun m hm => .inl (List.mem_of_mem_erase hm)) ?_ ?_ (fun _ => hstate) h.action ?_
    · rw [hphase, waiting_eq_nil hfull]
      exact waiting_eq_nil hfull
    · rw [hphase]
      exact hdata.symm
    · refine (congrArg ((s.reads.erase n).count n + s.mReceiveFull.toNat + ·) hnew).trans ?_
      rw [List.count_erase_self, hcount, hfull]
      rfl

/-! ## 5. The other functions -/

/-- A character is handed out, and the next byte read. -/
theorem getChar (h : InputInv c s) (hfull : s.mReceiveFull = true) : Goes c s.getChar := by
  obtain ⟨n, hn⟩ : ∃ n, s.mConnectionSocket = some n :=
    Option.ne_none_iff_exists'.mp fun hnone =>
      Bool.false_ne_true ((h.unused hnone).2.2.2.2.2.symm.trans hfull)
  have hpos : s.mReceiveFull.toNat = 1 := by rw [hfull, Bool.toNat_true]
  obtain ⟨haccepted, hone⟩ := h.token_eq_one hn (by omega)
  have hsettling : s.settling = 0 := by omega
  have hcount : s.reads.count n = 0 := by omega
  rw [Console.getChar, if_pos hfull]
  refine goes_primeForReceive hn ?_
  refine h.advances [] [s.mReceiveBuf] hn haccepted rfl (List.append_nil _).symm ?_
    (fun m hm => ?_) ?_ rfl h.settling h.action ?_
  · rw [hn]
    rfl
  · rcases List.mem_append.mp hm with hm | hm
    · exact .inl hm
    · exact .inr (List.mem_singleton.mp hm)
  · have hold : s.waiting n = [s.mReceiveBuf] := if_pos ⟨hfull, hn⟩
    rw [hold, waiting_eq_nil rfl]
    rfl
  · refine (congrArg ((s.reads ++ [n]).count n + 0 + ·) hsettling).trans ?_
    rw [List.count_append, hcount, List.count_singleton_self]

variable {rest : List Action}

/-- The answer to an option command is out, and the next byte is read. -/
theorem settle {aAction : OptionCode} {aOption : BitVec 8}
    (h : InputInv c s) (htodo : s.todo = .settle aAction aOption :: rest) :
    Goes c (Console.act { s with todo := rest } (.settle aAction aOption)) := by
  have hpos : s.settling = rest.countP Action.settles + 1 := by
    rw [Console.settling, htodo]
    exact List.countP_cons_of_pos rfl
  have hstate : s.mTelnetState = .waitOption := h.settling (by omega)
  obtain ⟨n, hn⟩ : ∃ n, s.mConnectionSocket = some n :=
    Option.ne_none_iff_exists'.mp fun hnone => by
      have hidle := (h.unused hnone).2.2.2.2.1
      rw [hstate] at hidle
      exact absurd hidle (by decide)
  obtain ⟨haccepted, hone⟩ := h.token_eq_one hn (by omega)
  have hfull : s.mReceiveFull = false := Bool.toNat_eq_zero.mp (by omega)
  have hnone : rest.countP Action.settles = 0 := by omega
  have hcount : s.reads.count n = 0 := by omega
  have hphase : s.phase = .data := if_neg (by omega)
  have hnever : TelnetStates.waitIAC ≠ .waitOption := by decide
  rw [Console.act]
  refine goes_primeForReceive hn ?_
  refine h.advances [] [] hn haccepted rfl (List.append_nil _).symm (List.append_nil _).symm
    (fun m hm => ?_) ?_ ?_ (fun hne => absurd hnone hne) (fun hwait => (hnever hwait).elim) ?_
  · rcases List.mem_append.mp hm with hm | hm
    · exact .inl hm
    · exact .inr (List.mem_singleton.mp hm)
  · rw [waiting_eq_nil hfull, waiting_eq_nil rfl]
    rfl
  · rw [hphase]
    exact (if_pos hnone).symm
  · refine (congrArg ((s.reads ++ [n]).count n + 0 + ·) hnone).trans ?_
    rw [List.count_append, hcount, List.count_singleton_self]

/-- A connection is accepted, and its first byte read. -/
theorem acceptHandler {n : Nat} {rest : List Nat} (h : InputInv c s)
    (haccepts : s.accepts = n :: rest) (hn : s.mConnectionSocket = some n) :
    Goes c ({ s with accepts := rest }.acceptHandler) := by
  have hacc : s.mAccepted = false := h.accepted n (by simp [haccepts]) hn
  have htoken := h.token n hn
  simp only [hacc, Bool.toNat_false] at htoken
  have hnodup := h.accepts
  rw [haccepts] at hnodup
  rw [Console.acceptHandler]
  refine goes_primeForReceive hn ?_
  refine ⟨h.handed, h.phase, h.settling, h.action, fun m hm => ?_, fun m hm => ?_,
    hnodup.of_cons, fun m hm hm' => ?_, fun hnone => absurd (hn.symm.trans hnone) (by simp)⟩
  · obtain rfl : n = m := Option.some.inj (hn.symm.trans hm)
    show (s.reads ++ [n]).count n + s.mReceiveFull.toNat + s.settling = 1
    rw [List.count_append, List.count_singleton_self]
    omega
  · refine h.numbered m ?_
    rcases hm with hm | hm | hm | hm
    · exact .inl hm
    · exact .inr (.inl (haccepts ▸ List.mem_cons_of_mem n hm))
    · rcases List.mem_append.mp hm with hm | hm
      · exact .inr (.inr (.inl hm))
      · obtain rfl := List.mem_singleton.mp hm
        exact .inl hn
    · exact .inr (.inr (.inr hm))
  · obtain rfl : n = m := Option.some.inj (hn.symm.trans hm')
    exact absurd hm (List.nodup_cons.mp hnodup).1

/-- A connection is closed between two commands, and the next one awaited. -/
theorem closeSocket {accepts reads : List Nat} {writes : List (Nat × List (BitVec 8))}
    (h : InputInv c s) (hbetween : s.BetweenCommands) (hsome : s.mConnectionSocket ≠ none)
    (haccepts : accepts.Sublist s.accepts) (hreads : ∀ n ∈ reads, n ∈ s.reads) :
    Goes c ({ s with accepts := accepts, reads := reads, writes := writes }.closeSocket) := by
  obtain ⟨n, hn⟩ := Option.ne_none_iff_exists'.mp hsome
  cases hclose : { s with accepts := accepts, reads := reads, writes := writes }.closeSocket with
  | error e =>
    rw [Console.closeSocket, hn] at hclose
    exact absurd hclose (by simp)
  | ok s' =>
    obtain rfl := closeSocket_eq_ok hclose
    exact h.listens hbetween rfl rfl rfl (haccepts.append (List.Sublist.refl _)) hreads rfl rfl rfl

theorem push (h : InputInv c s) (actions : List Action)
    (hactions : actions.countP Action.settles = 0) : InputInv c (s.push actions) := by
  refine h.same rfl ?_ h.writes
  rw [Console.settling, Console.push, List.countP_append, hactions, Nat.zero_add]
  rfl

theorem sendStringInternal (h : InputInv c s) (aData : List (BitVec 8)) (aDoNotify : Bool) :
    InputInv c (s.sendStringInternal aData aDoNotify) := by
  refine h.same rfl ?_ h.writes
  rw [Console.settling, Console.sendStringInternal, List.countP_append]
  cases s.mTransmitQueue.isEmpty <;> exact Nat.zero_add _

/-- A string is written, and what follows has nothing to do with reading. -/
theorem writeHandler {writes : List (Nat × List (BitVec 8))}
    {transmitted : List (List (BitVec 8))} (h : InputInv c s)
    (hwrites : s.mConnectionSocket = none → writes = []) :
    InputInv c { s with writes := writes, transmitted := transmitted }.writeHandler := by
  rw [Console.writeHandler]
  split
  · exact h.same rfl rfl hwrites
  · rename_i Head rest hqueue
    refine h.same rfl ?_ hwrites
    cases hnotify : Head.mDoNotify with
    | false => rfl
    | true => rfl

/-- A console that does not listen does not read either. -/
theorem acceptIfNeeded (h : InputInv c s) : InputInv c s.acceptIfNeeded := by
  rcases Option.eq_none_or_eq_some s.mConnectionSocket with hnone | ⟨n, hn⟩
  · rw [acceptIfNeeded_none hnone]
    exact h.listens (h.unused hnone).2.2.2.2 rfl rfl rfl (List.Sublist.refl _) (fun _ hm => hm) rfl rfl
      rfl
  · rw [acceptIfNeeded_some hn]
    exact h

theorem complete {what : Completion} (h : InputInv c s) (hproper : Proper s (.completes what)) :
    Goes c (s.complete c what) := by
  cases what with
  | accepted =>
    rw [Console.complete]
    split
    · rfl
    · rename_i n rest haccepts
      have hn : s.mConnectionSocket = some n := hproper n (by rw [haccepts]; rfl)
      rw [if_pos hn]
      exact h.acceptHandler haccepts hn
  | acceptFailed =>
    rw [Console.complete]
    split
    · rfl
    · rename_i n rest haccepts
      refine h.closeSocket hproper (fun hnone => ?_) ?_ fun _ hm => hm
      · rw [(h.unused hnone).1] at haccepts
        exact absurd haccepts (by simp)
      · rw [haccepts]
        exact List.sublist_cons_self n rest
  | keepAliveFailed =>
    rw [Console.complete]
    split
    · rfl
    · rename_i n rest haccepts
      have hn : s.mConnectionSocket = some n := hproper.1 n (by rw [haccepts]; rfl)
      rw [if_pos hn]
      refine h.closeSocket hproper.2 (by rw [hn]; simp) ?_ fun _ hm => hm
      rw [haccepts]
      exact List.sublist_cons_self n rest
  | read n b =>
    rw [Console.complete]
    split
    · rename_i hmem
      exact h.readHandler hproper.1 hmem hproper.2
    · rfl
  | readFailed n =>
    rw [Console.complete]
    split
    · rename_i hmem
      refine h.closeSocket hproper (fun hnone => ?_) (List.Sublist.refl _)
        fun _ hm => List.mem_of_mem_erase hm
      rw [(h.unused hnone).2.1] at hmem
      exact absurd hmem (by simp)
    · rfl
  | written k =>
    rw [Console.complete]
    split
    · rfl
    · exact h.writeHandler (fun hnone => by rw [h.writes hnone]; rfl)
  | writeFailed k =>
    rw [Console.complete]
    split
    · rename_i hk
      refine h.closeSocket hproper (fun hnone => ?_) (List.Sublist.refl _) fun _ hm => hm
      rw [(h.unused hnone).2.2.1] at hk
      exact absurd hk (by simp)
    · rfl

/-- The simulator's code calls the console, or returns. -/
theorem called {event : Event} (h : InputInv c s)
    (htodo : s.todo = .detail :: rest) : Goes c (s.called rest event) := by
  cases event with
  | sendString aData => exact h.sendStringInternal aData true
  | sendChar aData => exact h.sendStringInternal (cString [aData]) true
  | getChar =>
    rw [Console.called]
    split
    · rename_i hfull
      exact h.getChar hfull
    · exact h
  | polls => exact h.push [.poll] rfl
  | returns => exact h.same rfl (by rw [Console.settling, Console.settling, htodo]; rfl) h.writes
  | _ => rfl

theorem polled {event : Event} (h : InputInv c s)
    (htodo : s.todo = .poll :: rest) (hproper : Proper s event) : Goes c (s.polled c rest event) := by
  cases event with
  | completes what => exact h.complete hproper
  | others => exact h.push [.detail] rfl
  | pollEnds => exact h.same rfl (by rw [Console.settling, Console.settling, htodo]; rfl) h.writes
  | _ => rfl

/-- `SendFromQueue` gets to its write. -/
theorem startWrite (h : InputInv c s) : Goes c s.startWrite := by
  rw [Console.startWrite]
  split
  · exact h
  · split
    · rename_i haccepted
      split
      · rename_i hnone
        exact absurd ((h.unused hnone).2.2.2.1.symm.trans haccepted) Bool.false_ne_true
      · rename_i n hn
        exact h.same rfl rfl fun hnone => absurd (hn.symm.trans hnone) (by simp)
    · exact h

theorem act {action : Action} (h : InputInv c s)
    (htodo : s.todo = action :: rest) : Goes c (Console.act { s with todo := rest } action) := by
  have hrest : action.settles = false → InputInv c { s with todo := rest } := by
    intro haction
    refine h.same rfl ?_ h.writes
    rw [Console.settling, Console.settling, htodo, List.countP_cons_of_neg (by simp [haction])]
  cases action with
  | detail => rfl
  | poll => rfl
  | polls rounds =>
    cases rounds with
    | zero => exact hrest rfl
    | succ rounds =>
      rw [Console.act]
      split
      · exact (hrest rfl).same rfl rfl h.writes
      · exact (hrest rfl).push [.polls rounds] rfl
  | leave => exact (hrest rfl).same rfl rfl h.writes
  | sendFromQueue accepting =>
    rw [Console.act]
    split
    · exact hrest rfl
    · exact ((hrest rfl).push [_] rfl).acceptIfNeeded
  | startWrite accepting => exact (hrest rfl).startWrite
  | sendOption aAction aOption aRequest =>
    exact ((hrest rfl).push [.setOption aAction aOption aRequest] rfl).sendStringInternal
      (optionString aAction aOption) false
  | setOption aAction aOption aRequest => exact (hrest rfl).same rfl rfl h.writes
  | notify => exact (hrest rfl).same rfl rfl h.writes
  | settle aAction aOption => exact h.settle htodo

end InputInv

/-! ## 6. Runs -/

variable {c : ConsoleConfig}

theorem InputInv.step {s : Console} {event : Event} (h : InputInv c s) (hproper : Proper s event) :
    Goes c (step c event s) := by
  unfold Console.step
  split
  · rfl
  · rename_i rest htodo
    exact h.called htodo
  · rename_i rest htodo
    exact h.polled htodo hproper
  · rename_i action rest _ _ htodo
    cases event with
    | runs => exact h.act htodo
    | _ => rfl

theorem inputInv_constructed (c : ConsoleConfig) : InputInv c constructed := by
  have hnone : ∀ n, constructed.mConnectionSocket ≠ some n := by simp [constructed]
  refine ⟨fun n => rfl, fun n hn => absurd hn (hnone n), fun hne => absurd rfl hne,
    fun hwait => ?_, fun n hn => absurd hn (hnone n), fun n hn => ?_, List.nodup_nil,
    fun n hn => absurd hn (by simp [constructed]), fun _ => ⟨rfl, rfl, rfl, rfl, rfl, rfl⟩⟩
  · exact absurd hwait (by decide)
  · simp [Numbered, constructed] at hn

/-- Where connections end between two commands only, and send no commands but those the console
    knows, it does not throw and hands out the characters of each. -/
theorem input_always {events : List Event} (h : Along (step c) Proper events constructed) :
    InputFine c events := by
  have hstep : ∀ s event s', InputInv c s → Proper s event → step c event s = .ok s' →
      InputInv c s' := by
    intro s event s' hs hproper hone
    have hgoes := hs.step hproper
    rwa [hone] at hgoes
  have hsafe : ∀ e s event, InputInv c s → Proper s event →
      step c event s ≠ .error (.thrown e) := by
    intro e s event hs hproper hone
    have hgoes := hs.step hproper
    rw [hone] at hgoes
    exact absurd hgoes (by simp [Goes])
  exact ⟨fun e => EventRun.run_avoids hstep (hsafe e) (inputInv_constructed c) h,
    fun s hrun => (EventRun.run_keeps hstep (inputInv_constructed c) h hrun).ok⟩

/-- A terminal connects, sends a keep-alive and a character, and goes. -/
def aliveAndGone : List Event :=
  [.sendString [65], .runs, .completes .accepted, .polls, .completes (.read 0 255),
    .completes (.read 0 241), .completes (.read 0 66), .pollEnds, .getChar, .polls,
    .completes (.readFailed 0)]

theorem input_always_alive : InputFine ⟨true, true, true, 127⟩ aliveAndGone := by
  refine input_always (.cons trivial rfl (.cons trivial rfl (.cons ?_ rfl (.cons trivial rfl ?_))))
  · intro n hn
    cases hn
    rfl
  refine .cons ⟨rfl, fun hwait => absurd hwait (by decide)⟩ rfl ?_
  refine .cons ⟨rfl, fun _ => .inr (.inr rfl)⟩ rfl ?_
  refine .cons ⟨rfl, fun hwait => absurd hwait (by decide)⟩ rfl ?_
  refine .cons trivial rfl (.cons trivial rfl (.cons trivial rfl ?_))
  exact .one ⟨rfl, rfl⟩

/-! ## 7. Go ahead -/

/-- A terminal connects and sends the command 249. -/
def goAhead : List Event :=
  [.sendString [65], .runs, .completes .accepted, .polls, .completes (.read 0 255),
    .completes (.read 0 249), .pollEnds, .getChar]

/-- The command is handed out. -/
theorem not_input_always : ¬ ∀ (c : ConsoleConfig) (events : List Event), InputFine c events := by
  intro h
  obtain ⟨s, hrun, hhanded, hreceived⟩ :
      ∃ s, run (step ⟨true, true, true, 127⟩) goAhead constructed = .ok s ∧
        s.handed = [(0, 249)] ∧ s.received = [(0, 255), (0, 249)] := ⟨_, rfl, rfl, rfl⟩
  have hok := ((h ⟨true, true, true, 127⟩ goAhead).2 s hrun).handed 0
  rw [hhanded, hreceived] at hok
  exact absurd hok (by simp [bytesOf, ConsoleConfig.characters, stripped, telnet, TelnetCodes.iac,
    OptionCode.ofByte])

end Console

end CraySim
