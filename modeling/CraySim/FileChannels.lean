/-
  Subject:   Channels with a file behind them, of `cray_channels.cpp`.

  What the mainframe sends through an output channel is appended to a file, and an input channel
  reads a file into the buffers the mainframe activates. The end of the file is only noticed by a
  read that finds too few bytes.

  * `ChannelEvent` -- what happens to a channel: what the mainframe does, and ticks,
  * `FileOutputChannel.channelTick`, `FileInputChannel.channelTick` -- the ticks of the source,
  * `LoopsBack` -- the words of a file arrive, and then the channel disconnects,
  * `file_of_sent` -- the file has the words sent,
  * `delivered_of_interrupt` -- when the channel disconnects, one word more has arrived,
  * `not_loopsBack` -- so it never does what it is to do.
-/
import CraySim.ChannelPort
import CraySim.Lib.EventRun
import CraySim.Lib.HostFiles

namespace CraySim

namespace FileChannels

open ByteFile EventRun HostFiles

/-! ## 1. The mainframe's side of a channel -/

/-- What the mainframe does to a channel or its memory, and a tick. -/
inductive ChannelEvent where
  | setLimit (aLimit : CAddr)
  | setAddress (aAddress : CAddr)
  | clearInterrupt
  | clearError
  | masterClear
  | store (mem : Nat → BitVec 8)
  | channelTick

def mainframeSideMasterClear (ch : Channel) : Channel :=
  { ch with mAddress := 0, mLimit := 0, mInterruptPending := false, mError := false,
            mActive := false }

/-- What the mainframe does. -/
def mainframe : ChannelEvent → ChannelPort → ChannelPort
  | .setLimit aLimit, p => { p with ch := p.ch.setLimit aLimit }
  | .setAddress aAddress, p => { p with ch := p.ch.setAddress aAddress }
  | .clearInterrupt, p => { p with ch := { p.ch with mInterruptPending := false } }
  | .clearError, p => { p with ch := { p.ch with mError := false } }
  | .masterClear, p => { p with ch := mainframeSideMasterClear p.ch }
  | .store mem, p => { p with mMemory := mem }
  | .channelTick, p => p

/-- The constructor of `Channel_i`. -/
def newChannel (aChannelId : Nat) : Channel where
  mAddress := 0
  mLimit := 0
  mInterruptPending := false
  mError := false
  mActive := false
  mChannelId := aChannelId

theorem mInterruptPending_mainframe {e : ChannelEvent} {p : ChannelPort}
    (h : p.ch.mInterruptPending = false) : (mainframe e p).ch.mInterruptPending = false := by
  cases e <;> first | exact h | rfl

/-! ## 2. The channels -/

/-- `FileOutputChannel_c`, with the files there are and the words it has sent. -/
structure FileOutputChannel where
  port : ChannelPort
  mFileName : String
  files : Files String
  sent : List CInt

/-- `FileInputChannel_c`, with the files there are and the words it has delivered. -/
structure FileInputChannel where
  port : ChannelPort
  mFile : HostStream String
  files : Files String
  delivered : List CInt

/-- A word and the eight bytes of it; `SwapBytes` on both sides makes it the mainframe's order. -/
def wordOfBytes (bs : List (BitVec 8)) : CInt := BitVec.ofNat 64 (valueBE bs)

def bytesOfWord (w : CInt) : List (BitVec 8) := bytesBE 8 w.toNat

/-- **`FileOutputChannel_c::ChannelTick`**: the file is opened for each word. -/
def FileOutputChannel.channelTick (mMemSizeInWords : Nat) (s : FileOutputChannel) :
    Except Exn FileOutputChannel :=
  if !s.port.ch.mActive then .ok s
  else
    let (File, files) := HostStream.fresh.openFile s.mFileName .append s.files
    if !File.good then .ok { s with files := files }
    else
      (s.port.getData mMemSizeInWords).bind fun r =>
        .ok { s with
          port := r.2
          files := (File.put (bytesOfWord r.1) files).2
          sent := s.sent ++ [r.1] }

/-- **`FileInputChannel_c::ChannelTick`**: what is missing of a word is zero. -/
def FileInputChannel.channelTick (mMemSizeInWords : Nat) (s : FileInputChannel) :
    Except Exn FileInputChannel :=
  if !s.port.ch.mActive then .ok s
  else if !s.mFile.good then .ok s
  else
    let (bs, mFile) := s.mFile.get 8 s.files
    let Data := wordOfBytes (bs ++ List.replicate (8 - bs.length) 0)
    (s.port.setData mMemSizeInWords Data false).bind fun port =>
      .ok { s with
        port := if mFile.eofbit then { port with ch := port.ch.disconnect } else port
        mFile := mFile
        delivered := s.delivered ++ [Data] }

def FileOutputChannel.step (mMemSizeInWords : Nat) :
    ChannelEvent → FileOutputChannel → Except Exn FileOutputChannel
  | .channelTick, s => s.channelTick mMemSizeInWords
  | e, s => .ok { s with port := mainframe e s.port }

def FileInputChannel.step (mMemSizeInWords : Nat) :
    ChannelEvent → FileInputChannel → Except Exn FileInputChannel
  | .channelTick, s => s.channelTick mMemSizeInWords
  | e, s => .ok { s with port := mainframe e s.port }

/-- An output channel on a file, in front of the first word. -/
def newOutput (aChannelId : Nat) (mem : Nat → BitVec 8) (mFileName : String)
    (files : Files String) : FileOutputChannel where
  port := ⟨newChannel aChannelId, mem⟩
  mFileName := mFileName
  files := files
  sent := []

/-- An input channel; its constructor opens the file. -/
def newInput (aChannelId : Nat) (mem : Nat → BitVec 8) (mFileName : String)
    (files : Files String) : FileInputChannel where
  port := ⟨newChannel aChannelId, mem⟩
  mFile := (HostStream.fresh.openFile mFileName .input files).1
  files := files
  delivered := []

/-! ## 3. What they are for -/

/-- What is sent into an empty file is delivered from it, all of it and nothing else, and then the
    input channel disconnects with an interrupt. -/
def LoopsBack (mMemSizeInWords : Nat) (outMem inMem : Nat → BitVec 8) (outId inId : Nat)
    (mFileName : String) (files : Files String) (sending receiving : List ChannelEvent) : Prop :=
  ∃ o i, run (FileOutputChannel.step mMemSizeInWords) sending
      (newOutput outId outMem mFileName (Function.update files mFileName (some []))) = .ok o ∧
    run (FileInputChannel.step mMemSizeInWords) receiving (newInput inId inMem mFileName o.files) =
      .ok i ∧
    i.delivered = o.sent ∧ i.port.ch.mActive = false ∧ i.port.ch.mInterruptPending = true

/-! ## 4. Sending -/

section sending
variable {mMemSizeInWords : Nat} {s s' : FileOutputChannel}

/-- The file has the words sent. -/
def FileOutputChannel.Filed (mFileName : String) (s : FileOutputChannel) : Prop :=
  s.mFileName = mFileName ∧ s.files mFileName = some (s.sent.flatMap bytesOfWord)

theorem filed_channelTick {mFileName : String} (h : s.Filed mFileName)
    (hstep : s.channelTick mMemSizeInWords = .ok s') : s'.Filed mFileName := by
  obtain ⟨rfl, hfile⟩ := h
  rw [FileOutputChannel.channelTick] at hstep
  split at hstep
  · exact Except.ok.inj hstep ▸ ⟨rfl, hfile⟩
  · simp only [HostStream.openFile_append hfile] at hstep
    have hgood : ¬ (!(HostStream.appending s.mFileName).good) = true := Bool.false_ne_true
    rw [if_neg hgood] at hstep
    obtain ⟨r, -, hdone⟩ := exists_of_bind hstep
    obtain rfl := Except.ok.inj hdone
    refine ⟨rfl, ?_⟩
    simp only [HostStream.put_appending hfile, Function.update_self, List.flatMap_append,
      List.flatMap_singleton]

theorem filed_step {mFileName : String} {e : ChannelEvent} (h : s.Filed mFileName)
    (hstep : FileOutputChannel.step mMemSizeInWords e s = .ok s') : s'.Filed mFileName := by
  cases e with
  | channelTick => exact filed_channelTick h hstep
  | setLimit | setAddress | clearInterrupt | clearError | masterClear | store =>
    exact Except.ok.inj hstep ▸ h

/-- **The file has the words sent**, in every state of a run that starts with an empty one. -/
theorem file_of_sent {outId : Nat} {outMem : Nat → BitVec 8} {mFileName : String}
    {files : Files String} {sending : List ChannelEvent} {o : FileOutputChannel}
    (hrun : run (FileOutputChannel.step mMemSizeInWords) sending
      (newOutput outId outMem mFileName (Function.update files mFileName (some []))) = .ok o) :
    o.files mFileName = some (o.sent.flatMap bytesOfWord) := by
  have hstart : (newOutput outId outMem mFileName
      (Function.update files mFileName (some []))).Filed mFileName :=
    ⟨rfl, Function.update_self mFileName _ files⟩
  exact (run_keeps (I := FileOutputChannel.Filed mFileName) (fun _ _ _ h _ => filed_step h) hstart
    (along_true _ _) hrun).2

end sending

/-! ## 5. Receiving -/

section receiving
variable {mMemSizeInWords : Nat} {mFileName : String} {ws : List CInt} {s s' : FileInputChannel}

@[simp] theorem length_bytesOfWord (w : CInt) : (bytesOfWord w).length = 8 := length_bytesBE 8 _

theorem wordOfBytes_bytesOfWord (w : CInt) : wordOfBytes (bytesOfWord w) = w := by
  have hlt := w.isLt
  rw [wordOfBytes, bytesOfWord, valueBE_bytesBE, Nat.mod_eq_of_lt (by omega), BitVec.ofNat_toNat,
    BitVec.setWidth_eq]

theorem drop_flatMap_bytesOfWord (ws : List CInt) (k : Nat) :
    (ws.flatMap bytesOfWord).drop (8 * k) = (ws.drop k).flatMap bytesOfWord := by
  induction k generalizing ws with
  | zero => rfl
  | succ k ih =>
    cases ws with
    | nil => rw [List.drop_nil, List.flatMap_nil, List.drop_nil]
    | cons w ws =>
      rw [List.flatMap_cons, List.drop_succ_cons, ← ih, Nat.mul_succ, Nat.add_comm,
        ← List.drop_drop, List.drop_left' (length_bytesOfWord w)]

theorem length_flatMap_bytesOfWord (ws : List CInt) :
    (ws.flatMap bytesOfWord).length = 8 * ws.length := by
  induction ws with
  | nil => rfl
  | cons w ws ih => rw [List.flatMap_cons, List.length_append, ih, length_bytesOfWord,
      List.length_cons, Nat.mul_succ, Nat.add_comm]

/-- The word a read gives: the next one, or zero behind the last. -/
theorem wordOfBytes_read (ws : List CInt) (k : Nat) :
    wordOfBytes ((((ws.flatMap bytesOfWord).drop (8 * k)).take 8) ++
      List.replicate (8 - (((ws.flatMap bytesOfWord).drop (8 * k)).take 8).length) 0) =
      (ws[k]?).getD 0 := by
  rw [drop_flatMap_bytesOfWord, ← List.head?_drop]
  cases ws.drop k with
  | nil => decide
  | cons w rest =>
    rw [List.flatMap_cons, List.take_left' (length_bytesOfWord w), length_bytesOfWord,
      Nat.sub_self, List.replicate_zero, List.append_nil, wordOfBytes_bytesOfWord]
    rfl

/-- So many words of the file are read and delivered. -/
structure Reading (mFileName : String) (ws : List CInt) (k : Nat) (s : FileInputChannel) : Prop where
  file : s.files mFileName = some (ws.flatMap bytesOfWord)
  stream : s.mFile = HostStream.readingAt mFileName (8 * k) false
  delivered : s.delivered = ws.take k
  noInterrupt : s.port.ch.mInterruptPending = false

/-- A word is put into the buffer. -/
def deliver (mFileName : String) (ws : List CInt) (k : Nat) (s : FileInputChannel)
    (port : ChannelPort) : FileInputChannel :=
  if k < ws.length then
    { s with
      port := port
      mFile := HostStream.readingAt mFileName (8 * (k + 1)) false
      delivered := s.delivered ++ [(ws[k]?).getD 0] }
  else
    { s with
      port := { port with ch := port.ch.disconnect }
      mFile := HostStream.readingAt mFileName (8 * k) true
      delivered := s.delivered ++ [(ws[k]?).getD 0] }

/-- **A tick of an active channel**: behind the last word a zero is delivered, and then the channel
    disconnects. -/
theorem channelTick_reading {k : Nat} (h : Reading mFileName ws k s) (hk : k ≤ ws.length)
    (hactive : s.port.ch.mActive = true) :
    s.channelTick mMemSizeInWords =
      (s.port.setData mMemSizeInWords ((ws[k]?).getD 0) false).bind fun port =>
        .ok (deliver mFileName ws k s port) := by
  have hgood : ¬ (!s.mFile.good) = true := by
    rw [h.stream]
    exact Bool.false_ne_true
  have hget : s.mFile.get 8 s.files = _ := h.stream ▸ HostStream.get_readingAt h.file
  rw [length_flatMap_bytesOfWord] at hget
  rw [FileInputChannel.channelTick, hactive, if_neg (by decide), if_neg hgood]
  simp only [hget, wordOfBytes_read]
  by_cases hmore : k < ws.length
  · have hflag : decide (8 * ws.length - 8 * k < 8) = false := decide_eq_false (by omega)
    have hpos : 8 * k + min 8 (8 * ws.length - 8 * k) = 8 * (k + 1) := by omega
    simp only [deliver, if_pos hmore, hflag, hpos]
    rfl
  · have hflag : decide (8 * ws.length - 8 * k < 8) = true := decide_eq_true (by omega)
    have hpos : 8 * k + min 8 (8 * ws.length - 8 * k) = 8 * k := by omega
    simp only [deliver, if_neg hmore, hflag, hpos]
    rfl

theorem mInterruptPending_setData {w : CInt} {p p' : ChannelPort}
    (h : p.setData mMemSizeInWords w false = .ok p') :
    p'.ch.mInterruptPending = p.ch.mInterruptPending := by
  rw [ChannelPort.setData] at h
  split at h
  · exact absurd h (by simp)
  · split at h
    · exact absurd h (by simp)
    · split at h
      · exact absurd h (by simp)
      · exact Except.ok.inj h ▸ rfl

/-- The words are on their way, or all of them have arrived and a zero behind them. -/
def OnItsWay (mFileName : String) (ws : List CInt) (s : FileInputChannel) : Prop :=
  (∃ k ≤ ws.length, Reading mFileName ws k s) ∨ (s.mFile.good = false ∧ s.delivered = ws ++ [0])

theorem onItsWay_channelTick (h : OnItsWay mFileName ws s)
    (hstep : s.channelTick mMemSizeInWords = .ok s') : OnItsWay mFileName ws s' := by
  cases hactive : s.port.ch.mActive with
  | false =>
    rw [FileInputChannel.channelTick, hactive, if_pos Bool.not_false] at hstep
    exact Except.ok.inj hstep ▸ h
  | true =>
    rcases h with ⟨k, hk, hread⟩ | ⟨hdead, hall⟩
    · rw [channelTick_reading hread hk hactive] at hstep
      obtain ⟨port, hset, hdone⟩ := exists_of_bind hstep
      obtain rfl := Except.ok.inj hdone
      have hpending := (mInterruptPending_setData hset).trans hread.noInterrupt
      by_cases hmore : k < ws.length
      · left
        rw [deliver, if_pos hmore]
        refine ⟨k + 1, hmore, hread.file, rfl, ?_, hpending⟩
        rw [hread.delivered, List.getElem?_eq_getElem hmore, Option.getD_some,
          List.take_append_getElem]
      · right
        rw [deliver, if_neg hmore]
        refine ⟨rfl, ?_⟩
        rw [hread.delivered, List.take_of_length_le (by omega),
          List.getElem?_eq_none (by omega), Option.getD_none]
    · rw [FileInputChannel.channelTick, hactive, if_neg (by decide), hdead,
        if_pos Bool.not_false] at hstep
      exact Except.ok.inj hstep ▸ Or.inr ⟨hdead, hall⟩

theorem onItsWay_step {e : ChannelEvent} (h : OnItsWay mFileName ws s)
    (hstep : FileInputChannel.step mMemSizeInWords e s = .ok s') : OnItsWay mFileName ws s' := by
  have hmainframe : ∀ e, OnItsWay mFileName ws { s with port := mainframe e s.port } := by
    intro e
    rcases h with ⟨k, hk, hread⟩ | hend
    · exact Or.inl ⟨k, hk, hread.file, hread.stream, hread.delivered,
        mInterruptPending_mainframe hread.noInterrupt⟩
    · exact Or.inr hend
  cases e with
  | channelTick => exact onItsWay_channelTick h hstep
  | setLimit | setAddress | clearInterrupt | clearError | masterClear | store =>
    exact Except.ok.inj hstep ▸ hmainframe _

theorem reading_newInput {inId : Nat} {inMem : Nat → BitVec 8} {files : Files String}
    (hfile : files mFileName = some (ws.flatMap bytesOfWord)) :
    Reading mFileName ws 0 (newInput inId inMem mFileName files) where
  file := hfile
  stream := congrArg Prod.fst (HostStream.openFile_input hfile)
  delivered := rfl
  noInterrupt := rfl

/-- **When the channel has disconnected**, the words of the file have arrived and a zero behind
    them. -/
theorem delivered_of_interrupt {inId : Nat} {inMem : Nat → BitVec 8} {files : Files String}
    {receiving : List ChannelEvent} {i : FileInputChannel}
    (hfile : files mFileName = some (ws.flatMap bytesOfWord))
    (hrun : run (FileInputChannel.step mMemSizeInWords) receiving
      (newInput inId inMem mFileName files) = .ok i)
    (hpending : i.port.ch.mInterruptPending = true) : i.delivered = ws ++ [0] := by
  have hstart : OnItsWay mFileName ws (newInput inId inMem mFileName files) :=
    Or.inl ⟨0, Nat.zero_le _, reading_newInput hfile⟩
  rcases run_keeps (I := OnItsWay mFileName ws) (fun _ _ _ h _ => onItsWay_step h) hstart
    (along_true _ _) hrun with ⟨k, -, hread⟩ | ⟨-, hall⟩
  · exact absurd (hread.noInterrupt.symm.trans hpending) Bool.false_ne_true
  · exact hall

/-- In a buffer with room for a word more than there are left, that is what happens. -/
theorem delivers_all {k m : Nat} (hm : k + m = ws.length) (h : Reading mFileName ws k s)
    (hactive : s.port.ch.mActive = true) (hroom : s.port.HasRoom mMemSizeInWords (m + 1)) :
    ∃ i, run (FileInputChannel.step mMemSizeInWords) (List.replicate (m + 1) .channelTick) s =
        .ok i ∧
      i.delivered = ws ++ [0] ∧ i.port.ch.mActive = false ∧
      i.port.ch.mInterruptPending = true := by
  induction m generalizing k s with
  | zero =>
    have hlast : ¬ k < ws.length := by omega
    have htick : FileInputChannel.step mMemSizeInWords .channelTick s = _ :=
      channelTick_reading h (by omega) hactive
    simp only [ChannelPort.setData_ok hactive hroom, Except.bind, deliver, if_neg hlast] at htick
    refine ⟨_, run_cons htick, ?_, rfl, rfl⟩
    rw [h.delivered, List.take_of_length_le (by omega), List.getElem?_eq_none (by omega),
      Option.getD_none]
  | succ m ih =>
    have hmore : k < ws.length := by omega
    have htick : FileInputChannel.step mMemSizeInWords .channelTick s = _ :=
      channelTick_reading h (by omega) hactive
    simp only [ChannelPort.setData_ok hactive hroom, Except.bind, deliver, if_pos hmore] at htick
    rw [List.replicate_succ, run_cons htick]
    refine ih (by omega) ⟨h.file, rfl, ?_, h.noInterrupt⟩ hactive hroom.next
    rw [h.delivered, List.getElem?_eq_getElem hmore, Option.getD_some, List.take_append_getElem]

end receiving

/-! ## 6. Sending and receiving -/

/-- **Never** does what is sent arrive and the channel then disconnect: whatever the mainframe does
    on both sides, there is a zero behind the words when it disconnects. -/
theorem not_loopsBack (mMemSizeInWords : Nat) (outMem inMem : Nat → BitVec 8) (outId inId : Nat)
    (mFileName : String) (files : Files String) (sending receiving : List ChannelEvent) :
    ¬ LoopsBack mMemSizeInWords outMem inMem outId inId mFileName files sending receiving := by
  intro ⟨o, i, hsend, hreceive, hsame, _, hpending⟩
  have hextra := delivered_of_interrupt (file_of_sent hsend) hreceive hpending
  have hlen := congrArg List.length (hsame.symm.trans hextra)
  rw [List.length_append, List.length_singleton] at hlen
  omega

/-- A word is sent, and a buffer of two words activated: two words arrive. -/
theorem loopsBack_fails : ¬ LoopsBack 4 (fun _ => 1) (fun _ => 0) 0 1 "loop" (fun _ => none)
    [.setLimit 1, .setAddress 0, .channelTick]
    [.setLimit 2, .setAddress 0, .channelTick, .channelTick] := by
  intro ⟨o, i, hsend, hreceive, hsame, _, _⟩
  have hlengths : (run (FileOutputChannel.step 4) [.setLimit 1, .setAddress 0, .channelTick]
      (newOutput 0 (fun _ => 1) "loop" (Function.update (fun _ => none) "loop" (some [])))).bind
      (fun o => (run (FileInputChannel.step 4)
        [.setLimit 2, .setAddress 0, .channelTick, .channelTick]
        (newInput 1 (fun _ => 0) "loop" o.files)).map
          fun i => (o.sent.length, i.delivered.length)) = .ok (1, 2) := by rfl
  rw [hsend] at hlengths
  simp only [Except.bind, hreceive, Except.map, hsame] at hlengths
  obtain ⟨hone, htwo⟩ := Prod.mk.inj (Except.ok.inj hlengths)
  omega

end FileChannels

end CraySim
