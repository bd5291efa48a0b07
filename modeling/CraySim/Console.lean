/-
  Subject:   The console, a telnet server for one terminal.

  Everything runs in one thread. A call of `mIoService.poll()` runs the handlers of what has
  completed, from wherever it is called, so a function can find itself in the middle of itself:
  `todo` is the stack of what is still to run. What completes, and in which order, is not up to
  the console; a handler of another console may run as well.

  * `Console` -- the members, what the operating system has in hand, the history,
  * `acceptIfNeeded`, `closeSocket`, `primeForReceive` -- connections,
  * `sendStringInternal`, `getChar`, `readHandler`, `writeHandler`, `acceptHandler`,
  * `Event`, `step` -- what happens to a console.
-/
import CraySim.Types
import CraySim.Lib.EventRun

namespace CraySim

/-! ## 1. Telnet -/

/-- The codes of `TelnetCodes_e` that open an option command. -/
inductive OptionCode where
  | DONT
  | DO
  | WONT
  | WILL
  deriving DecidableEq

namespace TelnetCodes

def iac : BitVec 8 := 255

def nop : BitVec 8 := 241

end TelnetCodes

namespace OptionCode

def code : OptionCode → BitVec 8
  | .DONT => 254
  | .DO => 253
  | .WONT => 252
  | .WILL => 251

/-- `TelnetCodes_e(mReceiveBuf[0])`, where it is one of the four. -/
def ofByte (b : BitVec 8) : Option OptionCode :=
  if b = 254 then some .DONT
  else if b = 253 then some .DO
  else if b = 252 then some .WONT
  else if b = 251 then some .WILL
  else none

end OptionCode

namespace TelnetOptions

def optEcho : BitVec 8 := 1

def sga : BitVec 8 := 3

def linemode : BitVec 8 := 34

end TelnetOptions

/-- `TelnetOptions_s`. -/
structure TelnetOption where
  Do : Bool
  Will : Bool
  OutstandingDoDont : Bool
  OutstandingWillWont : Bool
  deriving DecidableEq

/-- `TelnetStates_e`. -/
inductive TelnetStates where
  | waitIAC
  | waitAction
  | waitOption
  deriving DecidableEq

/-- The two options the console wants. -/
def wanted (aOption : BitVec 8) : Bool :=
  aOption = TelnetOptions.optEcho || aOption = TelnetOptions.sga

/-- What `ReadHandler` answers to an option command. -/
def optionReply (aAction : OptionCode) (aOption : BitVec 8) : OptionCode :=
  match aAction with
  | .DO | .DONT => if wanted aOption then .WILL else .WONT
  | .WILL | .WONT => if wanted aOption then .DO else .DONT

/-- Whether the command is the answer to one of the console's own. -/
def TelnetOption.isAnswer (t : TelnetOption) : OptionCode → Bool
  | .DO | .DONT => t.OutstandingWillWont
  | .WILL | .WONT => t.OutstandingDoDont

/-- The option behind the command. -/
def settledOption (aAction : OptionCode) (aOption : BitVec 8) : TelnetOption :=
  match aAction with
  | .DO => ⟨true, wanted aOption, false, false⟩
  | .DONT => ⟨false, wanted aOption, false, false⟩
  | .WILL => ⟨wanted aOption, true, false, false⟩
  | .WONT => ⟨wanted aOption, false, false, false⟩

/-- The option behind `SendOptionString`. -/
def TelnetOption.requested (t : TelnetOption) (aRequest : Bool) : OptionCode → TelnetOption
  | .DO | .DONT => { t with OutstandingDoDont := aRequest, OutstandingWillWont := false }
  | .WILL | .WONT => { t with OutstandingDoDont := false, OutstandingWillWont := aRequest }

/-- A C string ends in front of its first zero. -/
def cString (Str : List (BitVec 8)) : List (BitVec 8) := Str.takeWhile (· ≠ 0)

def optionString (aAction : OptionCode) (aOption : BitVec 8) : List (BitVec 8) :=
  cString [TelnetCodes.iac, aAction.code, aOption]

/-! ## 2. The console -/

/-- What the constructor reads from the configuration. -/
structure ConsoleConfig where
  mEatLF : Bool
  mEatNull : Bool
  mMapBackspace : Bool
  mBackspaceChar : BitVec 8

/-- `TransmitQueueEntry_s`. -/
structure TransmitQueueEntry where
  mData : List (BitVec 8)
  mDoNotify : Bool
  deriving DecidableEq

/-- What is still to run. -/
inductive Console.Action where
  /-- Code of the simulator: a virtual function of the console, or whatever calls the console. -/
  | detail
  /-- `mIoService.poll()`. -/
  | poll
  /-- The loop of `SendFromQueue`, with the rounds it still has. -/
  | polls (rounds : Nat)
  /-- `--mInSendFromQueue`. -/
  | leave
  /-- `SendFromQueue`; `accepting` for the call at the end of `AcceptHandler`. -/
  | sendFromQueue (accepting : Bool)
  /-- `SendFromQueue` behind its `AcceptIfNeeded`; `accepting` also where that began to listen. -/
  | startWrite (accepting : Bool)
  /-- `SendOptionString`. -/
  | sendOption (aAction : OptionCode) (aOption : BitVec 8) (aRequest : Bool)
  /-- `SendOptionString` behind its `SendStringInternal`. -/
  | setOption (aAction : OptionCode) (aOption : BitVec 8) (aRequest : Bool)
  /-- `SendHandlerDetail`. -/
  | notify
  /-- `ReadHandler` behind its `SendOptionString`. -/
  | settle (aAction : OptionCode) (aOption : BitVec 8)
  deriving DecidableEq

/-- `Console_c`. A socket is known by its number; `sockets` is the number of the next one.
    `accepts`, `reads` and `writes` are the operations begun and not completed, and the last five
    fields what happened so far: the bytes received and the characters handed out, each with its
    connection, the strings queued, the strings transmitted, and the calls of
    `SendHandlerDetail`. -/
structure Console where
  mConnectionSocket : Option Nat
  mReceiveBuf : BitVec 8
  mReceiveFull : Bool
  mTransmitQueue : List TransmitQueueEntry
  mAccepted : Bool
  mInSendFromQueue : Nat
  mTelnetOptions : BitVec 8 → TelnetOption
  mTelnetState : TelnetStates
  mTelnetAction : BitVec 8
  sockets : Nat
  accepts : List Nat
  reads : List Nat
  writes : List (Nat × List (BitVec 8))
  todo : List Console.Action
  received : List (Nat × BitVec 8)
  handed : List (Nat × BitVec 8)
  queued : List TransmitQueueEntry
  transmitted : List (List (BitVec 8))
  notified : Nat

/-- Why a run ends: the event cannot happen here, or the program throws. -/
inductive Stop where
  | impossible
  | thrown (e : Exn)
  deriving DecidableEq

namespace Console

/-- The constructor; what follows it is the simulator's code. -/
def constructed : Console where
  mConnectionSocket := none
  mReceiveBuf := 0
  mReceiveFull := false
  mTransmitQueue := []
  mAccepted := false
  mInSendFromQueue := 0
  mTelnetOptions := fun _ => ⟨false, false, false, false⟩
  mTelnetState := .waitIAC
  mTelnetAction := TelnetCodes.iac
  sockets := 0
  accepts := []
  reads := []
  writes := []
  todo := [.detail]
  received := []
  handed := []
  queued := []
  transmitted := []
  notified := 0

variable (s : Console)

def push (actions : List Action) : Console := { s with todo := actions ++ s.todo }

def setTelnetOption (aOption : BitVec 8) (t : TelnetOption) : Console :=
  { s with mTelnetOptions := fun o => if o = aOption then t else s.mTelnetOptions o }

/-! ## 3. Connections -/

def acceptIfNeeded : Console :=
  match s.mConnectionSocket with
  | some _ => s
  | none =>
    { s with
      mTelnetOptions := fun _ => ⟨false, false, false, false⟩
      mConnectionSocket := some s.sockets
      sockets := s.sockets + 1
      mAccepted := false
      accepts := s.accepts ++ [s.sockets]
      todo := .poll :: s.todo }

def closeSocket : Except Stop Console :=
  match s.mConnectionSocket with
  | none => .error (.thrown .undefinedBehaviour)
  | some _ =>
    .ok { s with mConnectionSocket := none, mReceiveBuf := 0, mAccepted := false }.acceptIfNeeded

def primeForReceive : Except Stop Console :=
  match s.mConnectionSocket with
  | none => .error (.thrown .undefinedBehaviour)
  | some n => .ok { s with reads := s.reads ++ [n] }

/-! ## 4. What the simulator calls -/

def hasInput : Bool := s.mReceiveFull

/-- `GetChar`; the character goes to the connection there is. -/
def getChar : Except Stop Console :=
  if s.mReceiveFull then
    primeForReceive { s with
      mReceiveFull := false
      handed := s.handed ++ (s.mConnectionSocket.map fun n => (n, s.mReceiveBuf)).toList }
  else .error (.thrown .assertion)

def sendStringInternal (aData : List (BitVec 8)) (aDoNotify : Bool) : Console :=
  { s with
    mTransmitQueue := s.mTransmitQueue ++ [⟨aData, aDoNotify⟩]
    queued := s.queued ++ [⟨aData, aDoNotify⟩]
    todo := (if s.mTransmitQueue.isEmpty then [.sendFromQueue false] else []) ++ s.todo }

def sendString (aData : List (BitVec 8)) : Console := s.sendStringInternal aData true

def sendChar (aData : BitVec 8) : Console := s.sendString (cString [aData])

/-! ## 5. What is on the stack runs on -/

/-- `SendFromQueue` behind its `AcceptIfNeeded`. -/
def startWrite : Except Stop Console :=
  match s.mTransmitQueue with
  | [] => .ok s
  | Head :: _ =>
    if s.mAccepted then
      match s.mConnectionSocket with
      | none => .error (.thrown .assertion)
      | some n => .ok ({ s with writes := s.writes ++ [(n, Head.mData)] }.push [.polls 100])
    else .ok s

/-- The first action of the stack, the rest of which is in `todo`. -/
def act : Action → Except Stop Console
  | .detail | .poll => .error .impossible
  | .polls 0 => .ok s
  | .polls (rounds + 1) =>
    if s.mInSendFromQueue < 100 then
      .ok ({ s with mInSendFromQueue := s.mInSendFromQueue + 1 }.push [.poll, .leave, .polls rounds])
    else .ok (s.push [.polls rounds])
  | .leave => .ok { s with mInSendFromQueue := s.mInSendFromQueue - 1 }
  | .sendFromQueue accepting =>
    if s.mTransmitQueue.isEmpty then .ok s
    else .ok (s.push [.startWrite (accepting || s.mConnectionSocket.isNone)]).acceptIfNeeded
  | .startWrite _ => s.startWrite
  | .sendOption aAction aOption aRequest =>
    .ok ((s.push [.setOption aAction aOption aRequest]).sendStringInternal
      (optionString aAction aOption) false)
  | .setOption aAction aOption aRequest =>
    .ok (s.setTelnetOption aOption ((s.mTelnetOptions aOption).requested aRequest aAction))
  | .notify => .ok ({ s with notified := s.notified + 1 }.push [.detail])
  | .settle aAction aOption =>
    primeForReceive { s.setTelnetOption aOption (settledOption aAction aOption) with
      mTelnetState := .waitIAC
      mReceiveFull := false }

/-! ## 6. Handlers -/

/-- `AcceptHandler` without an error; `ConnectDetail` is the first thing it calls. -/
def acceptHandler : Except Stop Console :=
  ({ s with mAccepted := true }.push
    [.detail, .sendOption .WILL TelnetOptions.optEcho true, .sendOption .WILL TelnetOptions.sga true,
      .sendOption .WONT TelnetOptions.linemode true, .sendFromQueue true]).primeForReceive

/-- The end of `ReadHandler`. -/
def endReadHandler (ReceiveFull : Bool) : Except Stop Console :=
  if ReceiveFull then .ok { s with mReceiveFull := true }
  else { s with mReceiveFull := false }.primeForReceive

/-- `ReadHandler` without an error. -/
def readHandler (c : ConsoleConfig) : Except Stop Console :=
  if s.mReceiveFull then .error (.thrown .assertion)
  else match s.mTelnetState with
    | .waitIAC =>
      if s.mReceiveBuf = TelnetCodes.iac then
        { s with mTelnetState := .waitAction }.endReadHandler false
      else
        { s with
          mReceiveBuf :=
            if c.mMapBackspace && (s.mReceiveBuf = 0x08 || s.mReceiveBuf = 0x7f) then
              c.mBackspaceChar
            else s.mReceiveBuf }.endReadHandler
          (!(c.mEatLF && s.mReceiveBuf = 0x0a) && !(c.mEatNull && s.mReceiveBuf = 0x00))
    | .waitAction =>
      let s := { s with mTelnetAction := s.mReceiveBuf }
      if (OptionCode.ofByte s.mReceiveBuf).isSome then
        { s with mTelnetState := .waitOption }.endReadHandler false
      else
        { s with mTelnetState := .waitIAC }.endReadHandler (s.mReceiveBuf ≠ TelnetCodes.nop)
    | .waitOption =>
      match OptionCode.ofByte s.mTelnetAction with
      | none => .error (.thrown .assertion)
      | some aAction =>
        let aOption := s.mReceiveBuf
        .ok (s.push
          ((if (s.mTelnetOptions aOption).isAnswer aAction then []
            else [.sendOption (optionReply aAction aOption) aOption false]) ++
            [.settle aAction aOption]))

/-- `WriteHandler` without an error. -/
def writeHandler : Console :=
  match s.mTransmitQueue with
  | [] => s
  | Head :: rest =>
    { s with mTransmitQueue := rest }.push
      (.sendFromQueue false :: if Head.mDoNotify then [.notify] else [])

/-- What completes. -/
inductive Completion where
  | accepted
  | acceptFailed
  /-- The terminal is gone before `set_option`, which throws. -/
  | keepAliveFailed
  | read (n : Nat) (b : BitVec 8)
  | readFailed (n : Nat)
  | written (k : Nat)
  | writeFailed (k : Nat)

/-- An operation completes: its handler runs. An accept goes into the socket object that it was begun
    with, and `CloseSocket` may have destroyed that. -/
def complete (c : ConsoleConfig) : Completion → Except Stop Console
  | .accepted =>
    match s.accepts with
    | [] => .error .impossible
    | n :: rest =>
      if s.mConnectionSocket = some n then { s with accepts := rest }.acceptHandler
      else .error (.thrown .undefinedBehaviour)
  | .acceptFailed =>
    match s.accepts with
    | [] => .error .impossible
    | _ :: rest => { s with accepts := rest }.closeSocket
  | .keepAliveFailed =>
    match s.accepts with
    | [] => .error .impossible
    | n :: rest =>
      if s.mConnectionSocket = some n then { s with accepts := rest }.closeSocket
      else .error (.thrown .undefinedBehaviour)
  | .read n b =>
    if n ∈ s.reads then
      { s with reads := s.reads.erase n, mReceiveBuf := b, received := s.received ++ [(n, b)] }
        |>.readHandler c
    else .error .impossible
  | .readFailed n =>
    if n ∈ s.reads then { s with reads := s.reads.erase n }.closeSocket
    else .error .impossible
  | .written k =>
    match s.writes[k]? with
    | none => .error .impossible
    | some w =>
      .ok { s with writes := s.writes.eraseIdx k, transmitted := s.transmitted ++ [w.2] }.writeHandler
  | .writeFailed k =>
    if k < s.writes.length then { s with writes := s.writes.eraseIdx k }.closeSocket
    else .error .impossible

/-! ## 7. Events -/

inductive Event where
  /-- The console's code runs on. -/
  | runs
  | sendString (aData : List (BitVec 8))
  | sendChar (aData : BitVec 8)
  /-- `GetChar`, behind `HasInput`. -/
  | getChar
  /-- `Poll`, from `Tick`, `Flush` or a virtual function. -/
  | polls
  /-- The virtual function returns. -/
  | returns
  | completes (what : Completion)
  /-- A handler of another console begins. -/
  | others
  /-- Nothing more has completed. -/
  | pollEnds

/-- What the simulator's code does next; `rest` is what its return leads to. -/
def called (rest : List Action) : Event → Except Stop Console
  | .sendString aData => .ok (s.sendString aData)
  | .sendChar aData => .ok (s.sendChar aData)
  | .getChar => if s.hasInput then s.getChar else .ok s
  | .polls => .ok (s.push [.poll])
  | .returns => .ok { s with todo := rest }
  | _ => .error .impossible

/-- What a poll does next. -/
def polled (c : ConsoleConfig) (rest : List Action) : Event → Except Stop Console
  | .completes what => s.complete c what
  | .others => .ok (s.push [.detail])
  | .pollEnds => .ok { s with todo := rest }
  | _ => .error .impossible

def step (c : ConsoleConfig) (event : Event) (s : Console) : Except Stop Console :=
  match s.todo with
  | [] => .error .impossible
  | .detail :: rest => s.called rest event
  | .poll :: rest => s.polled c rest event
  | action :: rest =>
    match event with
    | .runs => act { s with todo := rest } action
    | _ => .error .impossible

/-! ## 8. What a step can do -/

section cases

variable {s} {c : ConsoleConfig} {s' : Console}

theorem acceptIfNeeded_some {n : Nat} (h : s.mConnectionSocket = some n) :
    s.acceptIfNeeded = s := by
  rw [acceptIfNeeded, h]

/-- A socket that is listened on. -/
def listening (s : Console) : Console :=
  { s with
    mTelnetOptions := fun _ => ⟨false, false, false, false⟩
    mConnectionSocket := some s.sockets
    sockets := s.sockets + 1
    mAccepted := false
    accepts := s.accepts ++ [s.sockets]
    todo := .poll :: s.todo }

theorem acceptIfNeeded_none (h : s.mConnectionSocket = none) : s.acceptIfNeeded = s.listening := by
  rw [acceptIfNeeded, h]
  rfl

theorem closeSocket_eq_ok (h : s.closeSocket = .ok s') :
    s' = { s with mConnectionSocket := none, mReceiveBuf := 0, mAccepted := false }.listening := by
  unfold closeSocket at h
  split at h
  · exact absurd h (by simp)
  · rw [← Except.ok.inj h, acceptIfNeeded_none rfl]

theorem sendFromQueue_eq_ok {accepting : Bool} (h : act s (.sendFromQueue accepting) = .ok s') :
    s.mTransmitQueue = [] ∧ s' = s ∨
      s.mConnectionSocket ≠ none ∧ s' = s.push [.startWrite accepting] ∨
      s.mConnectionSocket = none ∧ s' = (s.push [.startWrite true]).listening := by
  rw [act] at h
  split at h
  · rename_i hq
    exact .inl ⟨List.isEmpty_iff.mp hq, (Except.ok.inj h).symm⟩
  · obtain rfl := Except.ok.inj h
    rcases Option.eq_none_or_eq_some s.mConnectionSocket with hsocket | ⟨n, hsocket⟩
    · rw [hsocket, Option.isNone_none, Bool.or_true]
      exact .inr (.inr ⟨rfl, acceptIfNeeded_none hsocket⟩)
    · rw [hsocket, Option.isNone_some, Bool.or_false]
      exact .inr (.inl ⟨by simp, acceptIfNeeded_some hsocket⟩)

theorem primeForReceive_eq_ok (h : s.primeForReceive = .ok s') :
    ∃ n, s.mConnectionSocket = some n ∧ s' = { s with reads := s.reads ++ [n] } := by
  unfold primeForReceive at h
  cases hn : s.mConnectionSocket with
  | none => simp [hn] at h
  | some n => exact ⟨n, rfl, by simpa [hn] using h.symm⟩

theorem step_eq_ok {event : Event} (h : step c event s = .ok s') :
    ∃ action rest, s.todo = action :: rest ∧
      (action = .detail ∧ s.called rest event = .ok s' ∨
        action = .poll ∧ s.polled c rest event = .ok s' ∨
        event = .runs ∧ act { s with todo := rest } action = .ok s') := by
  unfold step at h
  split at h
  · exact absurd h (by simp)
  · rename_i rest htodo
    exact ⟨.detail, rest, htodo, .inl ⟨rfl, h⟩⟩
  · rename_i rest htodo
    exact ⟨.poll, rest, htodo, .inr (.inl ⟨rfl, h⟩)⟩
  · rename_i action rest _ _ htodo
    cases event with
    | runs => exact ⟨action, rest, htodo, .inr (.inr ⟨rfl, h⟩)⟩
    | _ => exact absurd h (by simp)

end cases

end Console

end CraySim
