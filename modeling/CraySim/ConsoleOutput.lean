/-
  Subject:   What the console sends.

  A string stays at the head of the queue while it is written, so a second `SendFromQueue` behind
  the first writes it again. All but two calls come where no write can be under way; the two are
  the call at the end of `AcceptHandler`, behind the option commands, and a call whose own
  `AcceptIfNeeded` polls, where the connection may be accepted and written to.

  * `OutputOk` -- one write, in order, nothing twice and nothing left lying,
  * `OutputInv` -- the same with what is on the stack,
  * `Written` -- what those two calls rely on,
  * `OutputInv.step` -- with it a step keeps the invariant,
  * `output_always_iff` -- a run is all right exactly where it is met.
-/
import CraySim.Console

namespace CraySim

namespace Console

open EventRun (run Along)

/-! ## 1. What is asked for -/

/-- One write at a time; the strings transmitted are the first of those queued, each once and in
    order, the others wait in the queue; `SendHandlerDetail` was called for each that asked for it,
    or is the next call to come; and a string that waits is being written, or about to be. -/
structure OutputOk (s : Console) : Prop where
  one : s.writes.length ≤ 1
  ledger : ∃ sent, s.queued = sent ++ s.mTransmitQueue ∧
    s.transmitted = sent.map TransmitQueueEntry.mData ∧
    s.notified + s.todo.count .notify = sent.countP TransmitQueueEntry.mDoNotify
  waits : s.todo = [.detail] → s.mAccepted = true → s.mTransmitQueue ≠ [] →
    s.writes.map Prod.snd = (s.mTransmitQueue.head?.map TransmitQueueEntry.mData).toList

/-- The operations of one connection: none of them fails. -/
def Event.succeeds : Event → Bool
  | .completes .acceptFailed | .completes .keepAliveFailed | .completes (.readFailed _)
  | .completes (.writeFailed _) => false
  | _ => true

/-- A console at rest that no terminal is connected to. -/
structure Unconnected (s : Console) : Prop where
  rest : s.todo = [.detail]
  unaccepted : s.mAccepted = false
  unwritten : s.writes = []
  queued : s.queued = s.mTransmitQueue
  transmitted : s.transmitted = []
  notified : s.notified = 0

theorem unconnected_constructed : Unconnected constructed := ⟨rfl, rfl, rfl, rfl, rfl, rfl⟩

/-! ## 2. The invariant -/

/-- What sending is about. -/
def output (s : Console) : List (Nat × List (BitVec 8)) × List TransmitQueueEntry ×
    List TransmitQueueEntry × List (List (BitVec 8)) × Nat :=
  (s.writes, s.mTransmitQueue, s.queued, s.transmitted, s.notified)

/-- The connection, and whether it is accepted. -/
def connection (s : Console) : Bool × Option Nat := (s.mAccepted, s.mConnectionSocket)

namespace Action

/-- A `SendFromQueue` that has not begun its write. -/
def starts : Action → Bool
  | .sendFromQueue _ | .startWrite _ => true
  | _ => false

/-- One that is called where no write is under way. -/
def unwritten : Action → Bool
  | .sendFromQueue false | .startWrite false => true
  | _ => false

end Action

/-- The actions behind the first are not those that are called where no write is under way: these
    run at once. -/
def Stacked (writes : List (Nat × List (BitVec 8))) : List Action → Prop
  | [] => True
  | action :: rest =>
    (action.unwritten = true → writes = []) ∧ ∀ b ∈ rest, b.unwritten = false

structure OutputInv (s : Console) : Prop where
  one : s.writes.length ≤ 1
  head : ∀ w ∈ s.writes, (s.mTransmitQueue.head?.map TransmitQueueEntry.mData) = some w.2
  ledger : ∃ sent, s.queued = sent ++ s.mTransmitQueue ∧
    s.transmitted = sent.map TransmitQueueEntry.mData ∧
    s.notified + s.todo.count .notify = sent.countP TransmitQueueEntry.mDoNotify
  starts : s.mAccepted = true → s.mTransmitQueue ≠ [] → s.writes = [] →
    ∃ b ∈ s.todo, b.starts = true
  stacked : Stacked s.writes s.todo
  connected : s.mAccepted = true → s.mConnectionSocket ≠ none

namespace OutputInv

variable {s s' : Console} {c : ConsoleConfig} {action : Action} {rest : List Action}

theorem ok (h : OutputInv s) : OutputOk s := by
  refine ⟨h.one, h.ledger, fun htodo hacc hq => ?_⟩
  cases hw : s.writes with
  | nil =>
    obtain ⟨b, hb, hstarts⟩ := h.starts hacc hq hw
    rw [htodo, List.mem_singleton] at hb
    subst hb
    exact absurd hstarts (by decide)
  | cons w ws =>
    have hone := h.one
    rw [hw, List.length_cons] at hone
    obtain rfl : ws = [] := List.length_eq_zero_iff.mp (by omega)
    have hhead := h.head w (by simp [hw])
    rw [hhead]
    rfl

/-- What is queued is written next where nothing is being written. -/
theorem unwritten_of_empty (h : OutputInv s) (hq : s.mTransmitQueue = []) : s.writes = [] := by
  cases hw : s.writes with
  | nil => rfl
  | cons w ws =>
    have hhead := h.head w (by simp [hw])
    exact absurd hhead (by simp [hq])

theorem rest_unwritten (h : OutputInv s) (htodo : s.todo = action :: rest) :
    ∀ b ∈ rest, b.unwritten = false := by
  have hstacked := h.stacked
  rw [htodo] at hstacked
  exact hstacked.2

/-- Where the queue and the writes stay as they are, the first action may give way to others. -/
theorem goesOn (h : OutputInv s) (top : List Action) (htodo : s.todo = action :: rest)
    (htodo' : s'.todo = top ++ rest) (hsame : s'.output = s.output)
    (hnotify : top.count .notify = [action].count .notify)
    (hstacked : Stacked s.writes top)
    (hconnected : s'.mAccepted = true → s'.mConnectionSocket ≠ none)
    (hstarts : s'.mAccepted = true → s.mTransmitQueue ≠ [] →
      s.mAccepted = true ∧ action.starts = false ∨ ∃ b ∈ top, b.starts = true) :
    OutputInv s' := by
  simp only [output, Prod.mk.injEq] at hsame
  obtain ⟨hwrites, hqueue, hqueued, htransmitted, hnotified⟩ := hsame
  have hrest := h.rest_unwritten htodo
  refine ⟨by rw [hwrites]; exact h.one, by rw [hwrites, hqueue]; exact h.head, ?_, ?_, ?_,
    hconnected⟩
  · obtain ⟨sent, h₁, h₂, h₃⟩ := h.ledger
    refine ⟨sent, by rw [hqueued, hqueue, h₁], by rw [htransmitted, h₂], ?_⟩
    rw [← h₃, hnotified, htodo, htodo', List.count_append, hnotify, ← List.count_append]
    rfl
  · intro hacc hq hw
    rw [hqueue] at hq
    rw [hwrites] at hw
    rw [htodo']
    rcases hstarts hacc hq with ⟨hacc, haction⟩ | ⟨b, hb, hbstarts⟩
    · obtain ⟨b, hb, hbstarts⟩ := h.starts hacc hq hw
      rw [htodo] at hb
      rcases List.mem_cons.mp hb with rfl | hb
      · exact absurd (hbstarts.symm.trans haction) (by decide)
      · exact ⟨b, List.mem_append_right _ hb, hbstarts⟩
    · exact ⟨b, List.mem_append_left _ hb, hbstarts⟩
  · rw [hwrites, htodo']
    cases top with
    | nil =>
      cases rest with
      | nil => trivial
      | cons b rest =>
        refine ⟨fun hb => absurd (hb.symm.trans (hrest b List.mem_cons_self)) (by decide),
          fun b' hb' => hrest b' (List.mem_cons_of_mem _ hb')⟩
    | cons b top =>
      refine ⟨hstacked.1, fun b' hb' => ?_⟩
      rcases List.mem_append.mp hb' with hb' | hb'
      · exact hstacked.2 b' hb'
      · exact hrest b' hb'

/-- An action that has nothing to do with sending. -/
theorem quiet (h : OutputInv s) (top : List Action) (htodo : s.todo = action :: rest)
    (htodo' : s'.todo = top ++ rest) (hsame : s'.output = s.output)
    (hconnection : s'.connection = s.connection)
    (haction : action ≠ .notify ∧ action.starts = false)
    (htop : ∀ b ∈ top, b ≠ .notify ∧ b.unwritten = false) : OutputInv s' := by
  simp only [connection, Prod.mk.injEq] at hconnection
  refine h.goesOn top htodo htodo' hsame ?_ ?_ ?_ ?_
  · rw [List.count_eq_zero.mpr fun hmem => (htop _ hmem).1 rfl,
      List.count_eq_zero.mpr fun hmem => haction.1 (List.mem_singleton.mp hmem).symm]
  · cases top with
    | nil => trivial
    | cons b top =>
      exact ⟨fun hb => absurd (hb.symm.trans (htop b List.mem_cons_self).2) (by decide),
        fun b' hb' => (htop b' (List.mem_cons_of_mem _ hb')).2⟩
  · rw [hconnection.1, hconnection.2]
    exact h.connected
  · intro hacc _
    exact .inl ⟨hconnection.1.symm.trans hacc, haction.2⟩

/-! ## 3. Each function -/

/-- A string is queued; the caller goes on with `next`. -/
theorem queues (h : OutputInv s) (next : Action) (htodo : s.todo = action :: rest)
    (haction : action ≠ .notify ∧ action.starts = false)
    (hnext : next ≠ .notify ∧ next.unwritten = false)
    (aData : List (BitVec 8)) (aDoNotify : Bool) :
    OutputInv ({ s with todo := next :: rest }.sendStringInternal aData aDoNotify) := by
  have hrest := h.rest_unwritten htodo
  have hnew : ∀ b ∈ next :: rest, b.unwritten = false := by
    intro b hb
    rcases List.mem_cons.mp hb with rfl | hb
    · exact hnext.2
    · exact hrest b hb
  refine ⟨h.one, ?_, ?_, ?_, ?_, h.connected⟩
  · intro w hw
    have hhead := h.head w hw
    cases hq : s.mTransmitQueue with
    | nil => simp [hq] at hhead
    | cons e q => simpa [sendStringInternal, hq] using hhead
  · obtain ⟨sent, h₁, h₂, h₃⟩ := h.ledger
    refine ⟨sent, by simp [sendStringInternal, h₁], h₂, ?_⟩
    rw [← h₃, htodo]
    cases hq : s.mTransmitQueue.isEmpty <;>
      simp [sendStringInternal, hq, haction.1, hnext.1]
  · intro hacc _ hw
    cases hq : s.mTransmitQueue with
    | nil => exact ⟨.sendFromQueue false, by simp [sendStringInternal], rfl⟩
    | cons e q =>
      obtain ⟨b, hb, hstarts⟩ := h.starts hacc (by simp [hq]) hw
      rw [htodo] at hb
      rcases List.mem_cons.mp hb with rfl | hb
      · exact absurd (hstarts.symm.trans haction.2) (by decide)
      · exact ⟨b, by simp [sendStringInternal, hb], hstarts⟩
  · cases hq : s.mTransmitQueue with
    | nil =>
      have hw := h.unwritten_of_empty hq
      simpa [sendStringInternal, hq, Stacked, hw] using hnew
    | cons e q =>
      simp only [sendStringInternal, List.isEmpty_cons, Bool.false_eq_true, if_false,
        List.nil_append]
      exact ⟨fun hb => absurd (hb.symm.trans hnext.2) (by decide), hrest⟩

/-- `SendFromQueue` gets to its write with none under way. -/
theorem startWrite (h : OutputInv s) (htodo : s.todo = action :: rest)
    (haction : action ≠ .notify)
    (hwritten : s.mAccepted = true → s.mTransmitQueue ≠ [] → s.writes = [])
    (hstep : { s with todo := rest }.startWrite = .ok s') : OutputInv s' := by
  have hcount : ([] : List Action).count .notify = [action].count .notify := by
    simp [haction]
  cases hq : s.mTransmitQueue with
  | nil =>
    obtain rfl : { s with todo := rest } = s' := by simpa [Console.startWrite, hq] using hstep
    exact h.goesOn [] htodo rfl rfl hcount trivial h.connected
      fun _ hne => absurd hq hne
  | cons Head q =>
    cases hacc : s.mAccepted with
    | false =>
      obtain rfl : { s with todo := rest } = s' := by
        simpa [Console.startWrite, hq, hacc] using hstep
      exact h.goesOn [] htodo rfl rfl hcount trivial h.connected
        fun hacc' _ => absurd (hacc'.symm.trans hacc) (by decide)
    | true =>
      obtain ⟨n, hn⟩ := Option.ne_none_iff_exists'.mp (h.connected hacc)
      have hw : s.writes = [] := hwritten hacc (by simp [hq])
      obtain rfl : { s with writes := [(n, Head.mData)], todo := .polls 100 :: rest } = s' := by
        simpa [Console.startWrite, push, hq, hacc, hn, hw] using hstep
      refine ⟨by simp, by simp [hq], ?_, fun _ _ hw => absurd hw (by simp), ?_, h.connected⟩
      · obtain ⟨sent, h₁, h₂, h₃⟩ := h.ledger
        exact ⟨sent, h₁, h₂, by rw [← h₃, htodo]; simp [haction]⟩
      · exact ⟨fun hb => absurd hb (by decide), h.rest_unwritten htodo⟩

/-- The head of the queue is written, and the next string follows. -/
theorem written {k : Nat} {w : Nat × List (BitVec 8)} (h : OutputInv s)
    (htodo : s.todo = .poll :: rest) (hk : s.writes[k]? = some w) :
    OutputInv { s with
      writes := s.writes.eraseIdx k
      transmitted := s.transmitted ++ [w.2] }.writeHandler := by
  have hhead := h.head w (List.mem_of_getElem? hk)
  have herase : s.writes.eraseIdx k = [] := by
    have hone := h.one
    have hlt := (List.getElem?_eq_some_iff.mp hk).1
    rw [← List.length_eq_zero_iff, List.length_eraseIdx_of_lt hlt]
    omega
  cases hq : s.mTransmitQueue with
  | nil => exact absurd hhead (by simp [hq])
  | cons Head q =>
    have hdata : Head.mData = w.2 := by simpa [hq] using hhead
    simp only [writeHandler, herase]
    refine ⟨by simp [push], by simp [push], ?_, ?_, ?_, h.connected⟩
    · obtain ⟨sent, h₁, h₂, h₃⟩ := h.ledger
      refine ⟨sent ++ [Head], by simp [push, h₁, hq], by simp [push, h₂, hdata], ?_⟩
      rw [List.countP_append, ← h₃]
      cases hnotify : Head.mDoNotify with
      | false => simp [push, hnotify]
      | true =>
        simp [push, hnotify]
        omega
    · exact fun _ _ _ => ⟨.sendFromQueue false, by simp [push], rfl⟩
    · have hrest := h.rest_unwritten htodo
      cases hnotify : Head.mDoNotify <;>
        simpa [push, Stacked, htodo, Action.unwritten, hnotify] using hrest

/-- `SendHandlerDetail` is called. -/
theorem notify (h : OutputInv s) (htodo : s.todo = .notify :: rest) :
    OutputInv { s with notified := s.notified + 1, todo := .detail :: rest } := by
  refine ⟨h.one, h.head, ?_, ?_, ?_, h.connected⟩
  · obtain ⟨sent, h₁, h₂, h₃⟩ := h.ledger
    refine ⟨sent, h₁, h₂, ?_⟩
    rw [← h₃, htodo]
    simp
    omega
  · intro hacc hq hw
    obtain ⟨b, hb, hstarts⟩ := h.starts hacc hq hw
    rw [htodo] at hb
    rcases List.mem_cons.mp hb with rfl | hb
    · exact absurd hstarts (by decide)
    · exact ⟨b, List.mem_cons_of_mem _ hb, hstarts⟩
  · exact ⟨fun hb => absurd hb (by decide), h.rest_unwritten htodo⟩

theorem act (h : OutputInv s) (htodo : s.todo = action :: rest)
    (hwritten : action = .startWrite true → s.mAccepted = true → s.mTransmitQueue ≠ [] →
      s.writes = [])
    (hstep : Console.act { s with todo := rest } action = .ok s') : OutputInv s' := by
  have hstacked := h.stacked
  rw [htodo] at hstacked
  cases action with
  | detail => exact absurd hstep (by simp [Console.act])
  | poll => exact absurd hstep (by simp [Console.act])
  | polls rounds =>
    cases rounds with
    | zero =>
      obtain rfl := Except.ok.inj hstep
      exact h.quiet [] htodo rfl rfl rfl (by decide) (by simp)
    | succ rounds =>
      rw [Console.act] at hstep
      split at hstep
      · obtain rfl := Except.ok.inj hstep
        exact h.quiet [.poll, .leave, .polls rounds] htodo rfl rfl rfl (by simp [Action.starts])
          (by simp [Action.unwritten])
      · obtain rfl := Except.ok.inj hstep
        exact h.quiet [.polls rounds] htodo rfl rfl rfl (by simp [Action.starts])
          (by simp [Action.unwritten])
  | leave =>
    obtain rfl := Except.ok.inj hstep
    exact h.quiet [] htodo rfl rfl rfl (by decide) (by simp)
  | sendFromQueue accepting =>
    rcases sendFromQueue_eq_ok hstep with ⟨hq, rfl⟩ | ⟨hsocket, rfl⟩ | ⟨hsocket, rfl⟩
    · exact h.goesOn [] htodo rfl rfl rfl trivial h.connected
        fun _ hne => absurd hq hne
    · refine h.goesOn [.startWrite accepting] htodo rfl rfl rfl
        ⟨fun hb => hstacked.1 ?_, by simp⟩ (fun _ => hsocket) fun _ _ => .inr
          ⟨.startWrite accepting, by simp, rfl⟩
      cases accepting <;> exact hb
    · refine h.goesOn [.poll, .startWrite true] htodo rfl rfl rfl
        ⟨fun hb => absurd hb (by decide), by simp [Action.unwritten]⟩ ?_ ?_ <;>
      exact fun hacc => absurd hacc (by simp [listening])
  | startWrite accepting =>
    refine h.startWrite htodo (by simp) (fun hacc hq => ?_) hstep
    cases accepting with
    | false => exact hstacked.1 rfl
    | true => exact hwritten rfl hacc hq
  | sendOption aAction aOption aRequest =>
    obtain rfl := Except.ok.inj hstep
    exact h.queues (.setOption aAction aOption aRequest) htodo (by simp [Action.starts])
      (by simp [Action.unwritten]) _ _
  | setOption aAction aOption aRequest =>
    obtain rfl := Except.ok.inj hstep
    exact h.quiet [] htodo rfl rfl rfl (by simp [Action.starts]) (by simp)
  | notify =>
    obtain rfl := Except.ok.inj hstep
    exact h.notify htodo
  | settle aAction aOption =>
    obtain ⟨n, -, rfl⟩ := primeForReceive_eq_ok hstep
    exact h.quiet [] htodo rfl rfl rfl (by simp [Action.starts]) (by simp)

/-- The simulator's code calls the console, or returns. -/
theorem called {event : Event} (h : OutputInv s) (htodo : s.todo = .detail :: rest)
    (hstep : s.called rest event = .ok s') : OutputInv s' := by
  have hself : { s with todo := .detail :: rest } = s := by rw [← htodo]
  have hqueues : ∀ aData, OutputInv (s.sendString aData) := by
    intro aData
    have hq := h.queues .detail htodo (by decide) (by decide) aData true
    rwa [hself] at hq
  cases event with
  | sendString aData =>
    obtain rfl := Except.ok.inj hstep
    exact hqueues aData
  | sendChar aData =>
    obtain rfl := Except.ok.inj hstep
    exact hqueues _
  | getChar =>
    rw [Console.called, Console.getChar] at hstep
    cases hfull : s.mReceiveFull with
    | false =>
      obtain rfl : s = s' := by simpa [hasInput, hfull] using hstep
      exact h
    | true =>
      simp only [hasInput, hfull, if_true] at hstep
      obtain ⟨n, -, rfl⟩ := primeForReceive_eq_ok hstep
      exact h.quiet [.detail] htodo htodo rfl rfl (by decide) (by decide)
  | polls =>
    obtain rfl := Except.ok.inj hstep
    exact h.quiet [.poll, .detail] htodo (by simp [push, htodo]) rfl rfl (by decide)
      (by decide)
  | returns =>
    obtain rfl := Except.ok.inj hstep
    exact h.quiet [] htodo rfl rfl rfl (by decide) (by simp)
  | _ => exact absurd hstep (by simp [Console.called])

end OutputInv

section handlers

variable {s s' : Console} {c : ConsoleConfig}

theorem endReadHandler_frame {ReceiveFull : Bool} (h : s.endReadHandler ReceiveFull = .ok s') :
    s'.output = s.output ∧ s'.connection = s.connection ∧ s'.todo = s.todo := by
  unfold endReadHandler at h
  split at h
  · obtain rfl := Except.ok.inj h
    exact ⟨rfl, rfl, rfl⟩
  · obtain ⟨n, -, rfl⟩ := primeForReceive_eq_ok h
    exact ⟨rfl, rfl, rfl⟩

/-- A byte received may bring an answer, and that is all the output sees of it. -/
theorem readHandler_frame (h : s.readHandler c = .ok s') :
    s'.output = s.output ∧ s'.connection = s.connection ∧
      ∃ top, s'.todo = top ++ s.todo ∧ ∀ b ∈ top, b ≠ .notify ∧ b.unwritten = false := by
  have hend : ∀ {s₁ : Console} {ReceiveFull : Bool}, s₁.endReadHandler ReceiveFull = .ok s' →
      s₁.output = s.output → s₁.connection = s.connection → s₁.todo = s.todo →
      s'.output = s.output ∧ s'.connection = s.connection ∧
        ∃ top, s'.todo = top ++ s.todo ∧ ∀ b ∈ top, b ≠ .notify ∧ b.unwritten = false := by
    intro s₁ ReceiveFull hend ho hc ht
    obtain ⟨ho', hc', ht'⟩ := endReadHandler_frame hend
    exact ⟨ho'.trans ho, hc'.trans hc, [], ht'.trans ht, by simp⟩
  unfold readHandler at h
  split at h
  · exact absurd h (by simp)
  · split at h
    · split at h <;> exact hend h rfl rfl rfl
    · simp only at h
      split at h <;> exact hend h rfl rfl rfl
    · split at h
      · exact absurd h (by simp)
      · obtain rfl := Except.ok.inj h
        refine ⟨rfl, rfl, _, rfl, fun b hb => ?_⟩
        split at hb
        · rw [List.nil_append, List.mem_singleton] at hb
          subst hb
          exact ⟨by simp, rfl⟩
        · rcases List.mem_append.mp hb with hb | hb <;>
          · rw [List.mem_singleton] at hb
            subst hb
            exact ⟨by simp, rfl⟩

end handlers

namespace OutputInv

variable {s s' : Console} {c : ConsoleConfig} {rest : List Action}

theorem complete {what : Completion} (h : OutputInv s) (htodo : s.todo = .poll :: rest)
    (hsucceeds : (Event.completes what).succeeds = true) (hstep : s.complete c what = .ok s') :
    OutputInv s' := by
  cases what with
  | accepted =>
    rw [Console.complete] at hstep
    split at hstep
    · exact absurd hstep (by simp)
    · split at hstep
      · obtain ⟨n, hn, rfl⟩ := primeForReceive_eq_ok hstep
        refine h.goesOn [.detail, .sendOption .WILL TelnetOptions.optEcho true,
          .sendOption .WILL TelnetOptions.sga true, .sendOption .WONT TelnetOptions.linemode true,
          .sendFromQueue true, .poll] htodo (by simp [push, htodo]) rfl rfl ?_ ?_ ?_
        · exact ⟨fun hb => absurd hb (by decide), by decide⟩
        · exact fun _ => by rw [hn]; simp
        · exact fun _ _ => .inr ⟨.sendFromQueue true, by simp, rfl⟩
      · exact absurd hstep (by simp)
  | read n b =>
    rw [Console.complete] at hstep
    split at hstep
    · obtain ⟨ho, hc, top, htodo', htop⟩ := readHandler_frame hstep
      refine h.quiet (top ++ [.poll]) htodo ?_ ho hc (by decide) fun b hb => ?_
      · rw [htodo', List.append_assoc]
        exact congrArg (top ++ ·) htodo
      · rcases List.mem_append.mp hb with hb | hb
        · exact htop b hb
        · rw [List.mem_singleton] at hb
          subst hb
          exact ⟨by decide, rfl⟩
    · exact absurd hstep (by simp)
  | written k =>
    rw [Console.complete] at hstep
    split at hstep
    · exact absurd hstep (by simp)
    · rename_i w hk
      obtain rfl := Except.ok.inj hstep
      exact h.written htodo hk
  | acceptFailed => exact absurd hsucceeds (by simp [Event.succeeds])
  | keepAliveFailed => exact absurd hsucceeds (by simp [Event.succeeds])
  | readFailed n => exact absurd hsucceeds (by simp [Event.succeeds])
  | writeFailed k => exact absurd hsucceeds (by simp [Event.succeeds])

theorem polled {event : Event} (h : OutputInv s) (htodo : s.todo = .poll :: rest)
    (hsucceeds : event.succeeds = true) (hstep : s.polled c rest event = .ok s') : OutputInv s' := by
  cases event with
  | completes what => exact h.complete htodo hsucceeds hstep
  | others =>
    obtain rfl := Except.ok.inj hstep
    exact h.quiet [.detail, .poll] htodo (by simp [push, htodo]) rfl rfl (by decide)
      (by decide)
  | pollEnds =>
    obtain rfl := Except.ok.inj hstep
    exact h.quiet [] htodo rfl rfl rfl (by decide) (by simp)
  | _ => exact absurd hstep (by simp [Console.polled])

end OutputInv

/-! ## 4. Runs -/

/-- What a `SendFromQueue` relies on that polled in its own `AcceptIfNeeded`, or that ends an
    `AcceptHandler`: by the time it gets to the head of the queue, the writes that were begun
    meanwhile are done. -/
def Written (s : Console) (event : Event) : Prop :=
  event = .runs → s.todo.head? = some (.startWrite true) → s.mAccepted = true →
    s.mTransmitQueue ≠ [] → s.writes = []

variable {s s' : Console} {c : ConsoleConfig} {event : Event}

/-- Such a call keeps what every other step keeps anyway. -/
theorem OutputInv.step (h : OutputInv s) (hsucceeds : event.succeeds = true) (hwritten : Written s event)
    (hstep : step c event s = .ok s') : OutputInv s' := by
  obtain ⟨action, rest, htodo, hcases⟩ := step_eq_ok hstep
  rcases hcases with ⟨rfl, hcalled⟩ | ⟨rfl, hpolled⟩ | ⟨rfl, hact⟩
  · exact h.called htodo hcalled
  · exact h.polled htodo hsucceeds hpolled
  · exact h.act htodo (fun haction => hwritten rfl (by rw [htodo, haction]; rfl)) hact

/-- Without it the head of the queue is written twice. -/
theorem OutputInv.wrong (h : OutputInv s) (hwritten : ¬ Written s event) :
    ∃ s', Console.step c event s = .ok s' ∧ ¬ OutputOk s' := by
  simp only [Written, Classical.not_imp] at hwritten
  obtain ⟨rfl, hhead, hacc, hq, hw⟩ := hwritten
  obtain ⟨rest, htodo⟩ := List.head?_eq_some_iff.mp hhead
  obtain ⟨n, hn⟩ := Option.ne_none_iff_exists'.mp (h.connected hacc)
  obtain ⟨Head, q, hqueue⟩ := List.exists_cons_of_ne_nil hq
  refine ⟨{ s with writes := s.writes ++ [(n, Head.mData)], todo := .polls 100 :: rest }, ?_, ?_⟩
  · simp [Console.step, htodo, Console.act, Console.startWrite, push, hqueue, hacc, hn]
  · intro hok
    have hone : (s.writes ++ [(n, Head.mData)]).length ≤ 1 := hok.one
    rw [List.length_append, List.length_singleton] at hone
    exact hw (List.length_eq_zero_iff.mp (by omega))

theorem outputInv_of_unconnected (h : Unconnected s) : OutputInv s := by
  have hacc : ¬ s.mAccepted = true := by simp [h.unaccepted]
  refine ⟨by simp [h.unwritten], by simp [h.unwritten], ⟨[], ?_⟩, fun hacc' => absurd hacc' hacc, ?_,
    fun hacc' => absurd hacc' hacc⟩
  · simp [h.queued, h.transmitted, h.notified, h.rest]
  · rw [h.rest]
    exact ⟨fun _ => h.unwritten, by simp⟩

/-- From a console without a terminal on, a run of one connection is all right exactly where every
    write that was begun meanwhile is done when one of the two calls gets to the queue. -/
theorem output_always_iff (c : ConsoleConfig) {s : Console} (hs : Unconnected s)
    {events : List Event} (hone : ∀ event ∈ events, event.succeeds = true) :
    (∀ before s', before <+: events → run (step c) before s = .ok s' → OutputOk s') ↔
      Along (step c) Written events s :=
  EventRun.run_always_iff (fun _ h => h.ok) (fun _ _ _ h hsucceeds hw hstep => h.step hsucceeds hw hstep)
    (fun _ _ h _ hw => h.wrong hw) hone (outputInv_of_unconnected hs)

/-- A string is queued, a terminal connects, and its three option commands are queued too. -/
def connecting : List Event :=
  [.sendString [65], .runs, .completes .accepted, .returns, .runs, .runs, .runs, .runs, .runs, .runs]

/-- The string is written. -/
def connectedAndWritten : List Event := connecting ++ [.runs, .runs, .runs, .completes (.written 0)]

theorem output_always_iff_written :
    ∃ s', run (step ⟨true, true, true, 127⟩) connectedAndWritten constructed = .ok s' ∧
      s'.transmitted = [[65]] ∧ OutputOk s' := by
  have hother : ∀ {event s}, event ≠ .runs → Written s event := fun hne h => absurd h hne
  have hruns : ∀ {s event}, s.todo.head? ≠ some (.startWrite true) → Written s event :=
    fun hne _ h => absurd h hne
  have hmet : Along (step ⟨true, true, true, 127⟩) Written connectedAndWritten constructed :=
    .cons (hother nofun) rfl <| .cons (hruns (by decide)) rfl <| .cons (hother nofun) rfl <|
      .cons (hother nofun) rfl <| .cons (hruns (by decide)) rfl <| .cons (hruns (by decide)) rfl <|
      .cons (hruns (by decide)) rfl <| .cons (hruns (by decide)) rfl <|
      .cons (hruns (by decide)) rfl <| .cons (hruns (by decide)) rfl <|
      .cons (hruns (by decide)) rfl <| .cons (fun _ _ _ _ => rfl) rfl <|
      .cons (hruns (by decide)) rfl <| .one (hother nofun)
  have hsucceeds : connectedAndWritten.all Event.succeeds = true := rfl
  have hall := (output_always_iff ⟨true, true, true, 127⟩ unconnected_constructed
    (List.all_eq_true.mp hsucceeds)).mpr hmet
  exact ⟨_, rfl, rfl, hall connectedAndWritten _ (List.prefix_refl _) rfl⟩

/-! ## 5. A slow terminal -/

/-- Rounds of the loop in which nothing completes, and its end. -/
def idle : Nat → List Event
  | 0 => [.runs]
  | rounds + 1 => [.runs, .pollEnds, .runs] ++ idle rounds

/-- The terminal is there when the first string is sent; `AcceptIfNeeded` polls, `AcceptHandler`
    writes the string, the loop sees nothing of it, and the `SendFromQueue` it all began in writes
    the string again. -/
def writtenTwice : List Event := connecting ++ [.runs, .runs] ++ idle 100 ++ [.pollEnds, .runs]

theorem run_idle (c : ConsoleConfig) {rounds : Nat} {rest : List Action} {s : Console}
    (htodo : s.todo = .polls rounds :: rest) (hin : s.mInSendFromQueue < 100) :
    run (step c) (idle rounds) s = .ok { s with todo := rest } := by
  induction rounds generalizing s with
  | zero => exact EventRun.run_cons (by simp [step, htodo, act])
  | succ rounds ih =>
    have henter : step c .runs s = .ok
        { s with mInSendFromQueue := s.mInSendFromQueue + 1
                 todo := .poll :: .leave :: .polls rounds :: rest } := by
      simp [step, htodo, act, hin, push]
    have hleave : step c .runs
        { s with mInSendFromQueue := s.mInSendFromQueue + 1, todo := .leave :: .polls rounds :: rest } =
          .ok { s with todo := .polls rounds :: rest } := by
      simp [step, act]
    refine (EventRun.run_cons henter).trans ((EventRun.run_cons rfl).trans
      ((EventRun.run_cons hleave).trans ?_))
    exact ih (s := { s with todo := .polls rounds :: rest }) rfl hin

theorem all_succeeds_idle (rounds : Nat) : (idle rounds).all Event.succeeds = true := by
  induction rounds with
  | zero => rfl
  | succ rounds ih => rw [idle, List.all_append, ih]; rfl

theorem all_succeeds_writtenTwice : writtenTwice.all Event.succeeds = true := by
  rw [writtenTwice, List.all_append, List.all_append, all_succeeds_idle]
  rfl

theorem exists_two_writes (c : ConsoleConfig) :
    ∃ s, run (step c) writtenTwice constructed = .ok s ∧ s.writes = [(0, [65]), (0, [65])] := by
  obtain ⟨s, hrun, htodo, hin, hwrites, haccepted, hsocket, hqueue⟩ :
      ∃ s, run (step c) (connecting ++ [.runs, .runs]) constructed = .ok s ∧
        s.todo = .polls 100 :: [.poll, .startWrite true, .detail] ∧ s.mInSendFromQueue < 100 ∧
        s.writes = [(0, [65])] ∧ s.mAccepted = true ∧ s.mConnectionSocket = some 0 ∧
        s.mTransmitQueue.head? = some ⟨[65], true⟩ :=
    ⟨_, rfl, rfl, by decide, rfl, rfl, rfl, rfl⟩
  obtain ⟨q, hqueue⟩ := List.head?_eq_some_iff.mp hqueue
  have hloop : run (step c) (connecting ++ [.runs, .runs] ++ idle 100) constructed =
      .ok { s with todo := [.poll, .startWrite true, .detail] } :=
    (EventRun.run_append_ok _ hrun).trans (run_idle c htodo hin)
  have hend : step c .pollEnds { s with todo := [.poll, .startWrite true, .detail] } =
      .ok { s with todo := [.startWrite true, .detail] } := rfl
  have hagain : step c .runs { s with todo := [.startWrite true, .detail] } =
      .ok { s with writes := [(0, [65]), (0, [65])], todo := [.polls 100, .detail] } := by
    simp [step, act, startWrite, push, hqueue, haccepted, hsocket, hwrites]
  refine ⟨{ s with writes := [(0, [65]), (0, [65])], todo := [.polls 100, .detail] }, ?_, rfl⟩
  rw [writtenTwice, EventRun.run_append_ok _ hloop, EventRun.run_cons hend, EventRun.run_cons hagain]
  rfl

/-- Not every run of one connection is all right. -/
theorem not_output_always :
    ¬ ∀ (c : ConsoleConfig) (events : List Event) (s : Console),
      (∀ event ∈ events, event.succeeds = true) →
        run (step c) events constructed = .ok s → OutputOk s := by
  intro h
  let c : ConsoleConfig := ⟨true, true, true, 127⟩
  obtain ⟨s, hrun, hwrites⟩ := exists_two_writes c
  have hone := (h c writtenTwice s (List.all_eq_true.mp all_succeeds_writtenTwice) hrun).one
  rw [hwrites] at hone
  exact absurd hone (by decide)

end Console

end CraySim
