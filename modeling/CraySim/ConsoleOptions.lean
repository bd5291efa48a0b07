/-
  Subject:   The negotiation of telnet options.

  What `ReadHandler` answers to DO, DONT, WILL and WONT. The two outstanding flags of an option keep
  it from answering an answer; it does not look at what the option is already set to. So an answer
  that is not expected is answered, too, and a console that talks to another one may never stop.

  * `receiveOption`, `tableAfter` -- a command, and a sequence of them,
  * `readHandler_option`, `act_sendOption`, `act_setOption`, `act_settle` -- the console does what
    `receiveOption` says,
  * `AnswersRight` -- the claim for the answers,
  * `exchangeRules`, `Quiesces` -- two consoles, and when they stop,
  * `negotiation_iff` -- when the negotiation is as it should be.
-/
import CraySim.Console
import CraySim.Lib.Exchange

namespace CraySim

namespace Console

open Exchange (Rules Endless Settles Ends)

/-! ## 1. Commands -/

/-- A command that was received: what is behind an IAC. -/
structure OptionCommand where
  action : OptionCode
  option : BitVec 8
  deriving DecidableEq

/-- `mTelnetOptions`. -/
abbrev OptionTable := BitVec 8 → TelnetOption

/-- The messages that `ReadHandler` sends for a command. -/
def answers (t : TelnetOption) (c : OptionCommand) : List (List (BitVec 8)) :=
  if t.isAnswer c.action then [] else [optionString (optionReply c.action c.option) c.option]

/-- A command: the table behind it, and the messages. -/
def receiveOption (table : OptionTable) (c : OptionCommand) :
    OptionTable × List (List (BitVec 8)) :=
  (fun o => if o = c.option then settledOption c.action c.option else table o,
    answers (table c.option) c)

/-- The table behind a sequence of commands. -/
def tableAfter (table : OptionTable) (commands : List OptionCommand) : OptionTable :=
  commands.foldl (fun table c => (receiveOption table c).1) table

/-! ## 2. What the console does -/

/-- The messages that some actions of the console send, -/
def Action.messages : Action → List (List (BitVec 8))
  | .sendOption aAction aOption _ => [optionString aAction aOption]
  | _ => []

/-- and what they make of the table. -/
def Action.options : Action → OptionTable → OptionTable
  | .setOption aAction aOption aRequest, table => fun o =>
    if o = aOption then (table aOption).requested aRequest aAction else table o
  | .settle aAction aOption, table => fun o =>
    if o = aOption then settledOption aAction aOption else table o
  | _, table => table

section machine
variable {s s' : Console} {c : ConsoleConfig} {a : OptionCode}

/-- **The actions of `ReadHandler` for a command are those of `receiveOption`.** -/
theorem readHandler_option (hfull : s.mReceiveFull = false) (hstate : s.mTelnetState = .waitOption)
    (haction : OptionCode.ofByte s.mTelnetAction = some a) :
    ∃ actions, s.readHandler c = .ok (s.push actions) ∧
      actions.flatMap Action.messages =
        (receiveOption s.mTelnetOptions ⟨a, s.mReceiveBuf⟩).2 ∧
      actions.foldl (fun table action => action.options table) s.mTelnetOptions =
        (receiveOption s.mTelnetOptions ⟨a, s.mReceiveBuf⟩).1 := by
  rw [readHandler, if_neg (by simp [hfull]), hstate]
  simp only [haction]
  refine ⟨_, rfl, ?_, ?_⟩
  · rw [receiveOption, answers]
    split <;> rfl
  · split <;> rfl

/-- `SendOptionString` queues its message. -/
theorem act_sendOption {o : BitVec 8} {aRequest : Bool}
    (h : act s (.sendOption a o aRequest) = .ok s') :
    s'.queued.map TransmitQueueEntry.mData =
        s.queued.map TransmitQueueEntry.mData ++ (Action.sendOption a o aRequest).messages ∧
      s'.mTelnetOptions = s.mTelnetOptions ∧
      ∃ front, s'.todo = front ++ .setOption a o aRequest :: s.todo ∧
        front.flatMap Action.messages = [] := by
  obtain rfl := Except.ok.inj h
  refine ⟨by simp [sendStringInternal, push, Action.messages], rfl, _, rfl, ?_⟩
  split <;> rfl

theorem act_setOption {o : BitVec 8} {aRequest : Bool}
    (h : act s (.setOption a o aRequest) = .ok s') :
    s'.mTelnetOptions = (Action.setOption a o aRequest).options s.mTelnetOptions ∧
      s'.queued = s.queued ∧ s'.todo = s.todo := by
  obtain rfl := Except.ok.inj h
  exact ⟨rfl, rfl, rfl⟩

/-- The rest of `ReadHandler`. -/
theorem act_settle {o : BitVec 8} (h : act s (.settle a o) = .ok s') :
    s'.mTelnetOptions = (Action.settle a o).options s.mTelnetOptions ∧
      s'.queued = s.queued ∧ s'.todo = s.todo := by
  obtain ⟨n, -, rfl⟩ := primeForReceive_eq_ok h
  exact ⟨rfl, rfl, rfl⟩

end machine

/-! ## 3. The answers -/

/-- The claim for a command: at most one message, of three bytes; none for the answer to an
    outstanding request; and a refusal stays one. -/
structure AnswerRight (t : TelnetOption) (c : OptionCommand) (messages : List (List (BitVec 8))) :
    Prop where
  one : messages.length ≤ 1
  three : ∀ message ∈ messages,
    ∃ verb : OptionCode, message = [TelnetCodes.iac, verb.code, c.option]
  answer : t.isAnswer c.action = true → messages = []
  dont : c.action = .DONT → [TelnetCodes.iac, OptionCode.WILL.code, c.option] ∉ messages
  wont : c.action = .WONT → [TelnetCodes.iac, OptionCode.DO.code, c.option] ∉ messages

/-- **The claim for a sequence of commands.** -/
def AnswersRight (table : OptionTable) (commands : List OptionCommand) : Prop :=
  ∀ pre c post, commands = pre ++ c :: post →
    AnswerRight (tableAfter table pre c.option) c (receiveOption (tableAfter table pre) c).2

/-- A message has three bytes where its option is not 0. -/
theorem optionString_eq (a : OptionCode) {o : BitVec 8} (ho : o ≠ 0) :
    optionString a o = [TelnetCodes.iac, a.code, o] := by
  have hiac : TelnetCodes.iac ≠ 0 := by decide
  have hcode : a.code ≠ 0 := by cases a <;> decide
  rw [optionString, cString, List.takeWhile_cons_of_pos (by simpa using hiac),
    List.takeWhile_cons_of_pos (by simpa using hcode),
    List.takeWhile_cons_of_pos (by simpa using ho), List.takeWhile_nil]

theorem length_optionString_zero (a : OptionCode) : (optionString a 0).length = 2 := by
  cases a <;> rfl

/-- **When the answer to a command is right.** -/
theorem answerRight_iff (t : TelnetOption) (c : OptionCommand) :
    AnswerRight t c (answers t c) ↔ t.isAnswer c.action = true ∨
      (c.option ≠ 0 ∧ (wanted c.option = true → c.action = .DO ∨ c.action = .WILL)) := by
  obtain ⟨a, o⟩ := c
  cases hanswer : t.isAnswer a with
  | true =>
    have hnone : answers t ⟨a, o⟩ = [] := if_pos hanswer
    rw [hnone]
    exact iff_of_true ⟨Nat.zero_le 1, List.forall_mem_nil _, fun _ => rfl,
      fun _ => List.not_mem_nil, fun _ => List.not_mem_nil⟩ (.inl rfl)
  | false =>
    have hone : answers t ⟨a, o⟩ = [optionString (optionReply a o) o] :=
      if_neg (by rw [hanswer]; decide)
    rw [hone, or_iff_right (by decide)]
    constructor
    · intro h
      have ho : o ≠ 0 := by
        rintro rfl
        obtain ⟨verb, hverb⟩ := h.three _ List.mem_cons_self
        have hlength := congrArg List.length hverb
        rw [length_optionString_zero] at hlength
        exact nomatch hlength
      refine ⟨ho, fun hwanted => ?_⟩
      have hdont := h.dont
      have hwont := h.wont
      rw [optionString_eq _ ho, List.mem_singleton] at hdont hwont
      cases a with
      | DO => exact .inl rfl
      | WILL => exact .inr rfl
      | DONT => exact absurd (by simp [optionReply, hwanted]) (hdont rfl)
      | WONT => exact absurd (by simp [optionReply, hwanted]) (hwont rfl)
    · rintro ⟨ho, hwanted⟩
      have hnot : a ≠ .DO → a ≠ .WILL → wanted o = false := fun hdo hwill =>
        Bool.eq_false_iff.mpr fun hw => (hwanted hw).elim hdo hwill
      rw [optionString_eq _ ho]
      refine ⟨Nat.le_refl 1, fun message hmem => ⟨_, List.mem_singleton.mp hmem⟩,
        fun htrue => absurd (hanswer ▸ htrue) (by decide), ?_, ?_⟩
      · rintro rfl
        simp [optionReply, hnot (by decide) (by decide), OptionCode.code]
      · rintro rfl
        simp [optionReply, hnot (by decide) (by decide), OptionCode.code]

/-- No option waits for an answer behind its first command. -/
theorem isAnswer_settledOption (a a' : OptionCode) (o : BitVec 8) :
    (settledOption a o).isAnswer a' = false := by
  cases a <;> cases a' <;> rfl

/-- Only the first command for an option can be an answer. -/
theorem isAnswer_tableAfter (a : OptionCode) (o : BitVec 8) (pre : List OptionCommand) :
    ∀ table : OptionTable, (tableAfter table pre o).isAnswer a = true ↔
      (∀ c ∈ pre, c.option ≠ o) ∧ (table o).isAnswer a = true := by
  induction pre with
  | nil => exact fun table => (and_iff_right (List.forall_mem_nil _)).symm
  | cons c pre ih =>
    intro table
    have hcons : tableAfter table (c :: pre) = tableAfter (receiveOption table c).1 pre := rfl
    rw [hcons, ih, List.forall_mem_cons]
    by_cases ho : c.option = o
    · have hsettled : ((receiveOption table c).1 o).isAnswer a = false := by
        rw [receiveOption]
        simp only [if_pos ho.symm, isAnswer_settledOption]
      simp [hsettled, ho]
    · have hsame : (receiveOption table c).1 o = table o := by
        rw [receiveOption]
        exact if_neg fun heq => ho heq.symm
      rw [hsame]
      simp [ho]

/-- **When all answers are right.** -/
theorem answersRight_iff (table : OptionTable) (commands : List OptionCommand) :
    AnswersRight table commands ↔ ∀ pre c post, commands = pre ++ c :: post →
      ((∀ c' ∈ pre, c'.option ≠ c.option) ∧ (table c.option).isAnswer c.action = true) ∨
        (c.option ≠ 0 ∧ (wanted c.option = true → c.action = .DO ∨ c.action = .WILL)) := by
  refine forall_congr' fun pre => forall_congr' fun c => forall_congr' fun post =>
    imp_congr_right fun _ => ?_
  rw [receiveOption, answerRight_iff, isAnswer_tableAfter]

/-! ## 4. Two consoles -/

/-- What a console answers to a command for an option, and how it has the option then. -/
def exchangeRules (aOption : BitVec 8) : Rules TelnetOption OptionCode where
  answer t aAction := if t.isAnswer aAction then none else some (optionReply aAction aOption)
  after _ aAction := settledOption aAction aOption

/-- **The messages of the exchange are those that are sent.** -/
theorem answers_eq {o : BitVec 8} (ho : o ≠ 0) (t : TelnetOption) (a : OptionCode) :
    answers t ⟨a, o⟩ = ((exchangeRules o).answer t a).toList.map fun verb =>
      [TelnetCodes.iac, verb.code, o] := by
  rw [answers, exchangeRules]
  simp only
  split
  · rfl
  · rw [optionString_eq _ ho]
    rfl

theorem receiveOption_eq (table : OptionTable) (a : OptionCode) (o : BitVec 8) :
    (receiveOption table ⟨a, o⟩).1 o = (exchangeRules o).after (table o) a := by
  rw [receiveOption]
  exact if_pos rfl

/-- Whether a request of this kind is outstanding. -/
def awaits (t : TelnetOption) : OptionCode → Bool
  | .DO | .DONT => t.OutstandingDoDont
  | .WILL | .WONT => t.OutstandingWillWont

/-- The answer to a request is one to whoever waits for it. -/
theorem isAnswer_optionReply (t : TelnetOption) (a : OptionCode) (o : BitVec 8) :
    t.isAnswer (optionReply a o) = awaits t a := by
  cases a <;> simp only [optionReply] <;> split <;> rfl

/-- **What is on its way is taken in**: no message; one that is an answer to an outstanding request,
    or a request that is itself outstanding; or two, of which each console takes in one. -/
def Quiesces (here there : TelnetOption) : List OptionCode → List OptionCode → Prop
  | [], [] => True
  | [a], [] => here.isAnswer a = true ∨ awaits there a = true
  | [], [a] => there.isAnswer a = true ∨ awaits here a = true
  | [a, a'], [] => here.isAnswer a = true ∧ awaits there a' = true
  | [], [a, a'] => there.isAnswer a = true ∧ awaits here a' = true
  | [a], [a'] => here.isAnswer a = true ∧ there.isAnswer a' = true
  | _, _ => False

section exchange
variable (o : BitVec 8)

/-- What is taken in is an answer to an outstanding request. -/
theorem answer_eq_none (t : TelnetOption) (a : OptionCode) :
    (exchangeRules o).answer t a = none ↔ t.isAnswer a = true := by
  rw [exchangeRules]
  simp only
  split
  · exact iff_of_true rfl ‹_›
  · exact iff_of_false (by simp) ‹_›

/-- After its first message a console answers everything. -/
theorem answer_after_ne_none (t : TelnetOption) (a a' : OptionCode) :
    (exchangeRules o).answer ((exchangeRules o).after t a) a' ≠ none := by
  rw [Ne, answer_eq_none, exchangeRules]
  simp only [isAnswer_settledOption]
  decide

theorem ends_iff (t t' : TelnetOption) (a : OptionCode) :
    Ends (exchangeRules o) t t' a ↔ t.isAnswer a = true ∨ awaits t' a = true := by
  rw [Ends, answer_eq_none]
  refine or_congr_right' fun hnot => ?_
  have hanswer : (exchangeRules o).answer t a = some (optionReply a o) := if_neg hnot
  rw [hanswer]
  simp [answer_eq_none, isAnswer_optionReply]

/-- **The two consoles take everything in.** -/
theorem settles_iff (here there : TelnetOption) (l l' : List OptionCode) :
    Settles (exchangeRules o) here there l l' ↔ Quiesces here there l l' := by
  have hafter : ∀ t t' a a', Ends (exchangeRules o) ((exchangeRules o).after t a) t' a' ↔
      awaits t' a' = true := fun t t' a a' => by
    rw [ends_iff, exchangeRules]
    simp only [isAnswer_settledOption, Bool.false_eq_true, false_or]
  rcases l with - | ⟨m, - | ⟨m', - | ⟨m'', l⟩⟩⟩ <;>
    rcases l' with - | ⟨n, - | ⟨n', - | ⟨n'', l'⟩⟩⟩ <;>
    simp only [Settles, Quiesces, ends_iff, hafter, answer_eq_none]

end exchange

end Console

end CraySim
