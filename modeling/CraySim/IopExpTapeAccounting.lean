/-
  Subject:   What the commands of an expander tape count.

  A command counts register C up from the negated count: a read and a write by the words they move,
  as register B, and the space commands by the records they pass. Spacing backward goes on counting
  at the load point, and takes a mark that is the first item of the tape for a record.

  * `Accounts` -- the device behind a command,
  * `read_accounts`, `write_accounts` -- the commands that move words,
  * `spaceRecords_forward`, `spaceRecords_backward` -- the loops of the space commands,
  * `command_accounts` -- all four commands, and when spacing backward counts right.
-/
import CraySim.IopExpTape
import CraySim.PokedTapSpacing

namespace CraySim

open Framed Tape TapFile

namespace IopExpTape

open IopExpDevice PokedTapFile

/-! ## 1. Registers -/

/-- The device behind a command that moved `words` words and counted `passed`: it is done with its
    interrupt active, and its registers have advanced. -/
structure Accounts (words passed : Nat) (x x' : Plugged IopExpTape) : Prop where
  done : x'.device.flags.mDone = true
  busy : x'.device.flags.mBusy = false
  active : x'.device.flags.mInterruptActive = true
  regB : x'.device.mRegB = x.device.mRegB + BitVec.ofNat 16 words
  regC : x'.device.mRegC = x.device.mRegC + BitVec.ofNat 16 passed

/-- The count of a command: register C reaches zero behind it, and not before. -/
theorem count_ok {d : IopExpTape} {n : Nat} (hneg : d.mRegC.toInt = -(n : Int)) (hpos : 0 < n) :
    count d = .ok n ∧ n ≤ 2 ^ 15 ∧ ∀ m ≤ n, (d.mRegC + BitVec.ofNat 16 m = 0 ↔ m = n) := by
  have hlt := d.mRegC.isLt
  have hlow : -2 ^ (16 - 1) ≤ d.mRegC.toInt := BitVec.le_toInt d.mRegC
  have hint : d.mRegC.toInt = (d.mRegC.toNat : Int) - 2 ^ 16 := by
    rw [BitVec.toInt_eq_toNat_cond] at hneg ⊢
    split at hneg
    · omega
    · rw [if_neg ‹_›]
      rfl
  rw [hint] at hneg hlow
  refine ⟨?_, by omega, fun m hm => ?_⟩
  · rw [count, hint, if_pos (by omega)]
    congr 1
    omega
  · rw [← BitVec.toNat_inj, BitVec.toNat_add, BitVec.toNat_ofNat,
      show (0 : IopInt).toNat = 0 from rfl]
    omega

section commands
variable {scan : IopExpTape → Except Exn Bool} {x : Plugged IopExpTape} {h : TapHead}
  (hscan : ∀ d, ∃ pending, scan d = .ok pending)

/-- The device with its image at `s`. -/
def withImage (x : Plugged IopExpTape) (s : PokedTapFile) : Plugged IopExpTape :=
  { x with device := { x.device with mTapeImage := s } }

variable {s : PokedTapFile} {n : Nat} {seek : Poked Unit}

theorem onTape_bind {α β : Type} {m : Poked α} {a : α}
    (hm : m x.device.mTapeImage = (.ok a, s)) (k : α × Plugged IopExpTape → Except Exn β) :
    (onTape m x >>= k) = k (a, withImage x s) := by
  rw [onTape, hm]
  rfl

theorem onTape_bind_error {α β : Type} {m : Poked α} {e : TapExn}
    (hm : m x.device.mTapeImage = (.error e, s)) (k : α × Plugged IopExpTape → Except Exn β) :
    (onTape m x >>= k) = .error (tapExn e) := by
  rw [onTape, hm]
  rfl

theorem count_bind {β : Type} {d : IopExpTape} (hcount : count d = .ok n)
    (k : Nat → Except Exn β) : (count d >>= k) = k n := by
  rw [hcount]
  rfl

include hscan

/-- `FinalizeControl` ends the command. -/
theorem finalizeControl_ok (aStatus : IopInt) (x : Plugged IopExpTape) :
    ∃ x', finalizeControl scan aStatus x = .ok x' ∧ Accounts 0 0 x x' ∧
      x'.device.mTapeImage = x.device.mTapeImage ∧ x'.ioMemory = x.ioMemory := by
  obtain ⟨pending, hpending⟩ := hscan { x.device with
    flags := { x.device.flags with mDone := true, mBusy := false, mInterruptActive := true }
    mRegAStat := x.device.mRegAStat ||| aStatus }
  have hfinal : finalizeControl scan aStatus x = .ok { x with
      device := { x.device with
        flags := { x.device.flags with mDone := true, mBusy := false, mInterruptActive := true }
        mRegAStat := x.device.mRegAStat ||| aStatus }
      mDeviceInterruptPending := pending } := by
    rw [finalizeControl, setIntActive, intStatusChanged]
    exact congrArg (· >>= _) hpending
  exact ⟨_, hfinal, ⟨rfl, rfl, rfl, (BitVec.add_zero _).symm, (BitVec.add_zero _).symm⟩, rfl, rfl⟩

/-! ## 2. Reading and writing -/

/-- **Reading**: the words that are read are counted, stored, and passed by register B. -/
theorem read_accounts (hs : OnDrive x.device.mTapeImage.tape h) (hfits : ∀ y ∈ h.items, ItemFits y)
    (hlen : (tapeImage h).length < 2 ^ 63) (hcount : count x.device = .ok n) (hpos : 0 < n)
    (hn : n ≤ 2 ^ 15) :
    ∃ data x', readForward scan x = .ok x' ∧ data.length = (h.read (2 * n)).1.length ∧
      x'.ioMemory = x.ioMemory.store x.device.mRegB (parcelsOf data) ∧
      Accounts (parcelsOf data).length (parcelsOf data).length x x' ∧
      Describes x'.device.mTapeImage.tape (h.read (2 * n)).2 := by
  obtain ⟨s, hopen, hd, -⟩ := reOpen_opens hs
  have hsize : (BitVec.ofNat 32 (2 * n)).toNat = 2 * n := by
    rw [BitVec.toNat_ofNat]
    omega
  have hsome : 0 < (BitVec.ofNat 32 (2 * n)).toNat := by omega
  obtain ⟨s', hread, hd'⟩ := read_steps hd hfits hlen hsome
  rw [hsize] at hread hd'
  obtain ⟨state, hstate⟩ := getState_described hd'
  have hget : PokedTapFile.getState s' = (.ok state, s') := PokedTapFile.onTape_ok hstate
  generalize hdata : poke s (h.read (2 * n)).1 = data at hread
  obtain ⟨x', hfinal, haccounts, himage, hmem⟩ := finalizeControl_ok hscan
    (if state = .EndOfTape ∨ state = .EndOfFile then statusReady ||| statusError else statusReady)
    { x with
      device := { advance (parcelsOf data).length x.device with mTapeImage := s' }
      ioMemory := x.ioMemory.store x.device.mRegB (parcelsOf data) }
  refine ⟨data, x', ?_, by rw [← hdata, length_poke], hmem, ⟨haccounts.done, haccounts.busy,
    haccounts.active, haccounts.regB.trans (BitVec.add_zero _),
    haccounts.regC.trans (BitVec.add_zero _)⟩, himage ▸ hd'⟩
  rw [readForward, onTape_bind hopen]
  refine (count_bind hcount _).trans ?_
  refine (onTape_bind (x := withImage x s) (tellg_described hd) _).trans ?_
  refine (onTape_bind (x := withImage x s) hread _).trans ?_
  exact (onTape_bind hget _).trans hfinal

/-- **Writing**: all words that are asked for are counted, and passed by register B; they are the
    record that is written, if the one in front of the head is not too long. -/
theorem write_accounts (hs : OnDrive x.device.mTapeImage.tape h) (hfits : ∀ y ∈ h.items, ItemFits y)
    (hcount : count x.device = .ok n) (hpos : 0 < n) (hn : n ≤ 2 ^ 15) :
    ∃ x', writeForward false scan x = .ok x' ∧ Accounts n n x x' ∧
      (WriteSafe h → Describes x'.device.mTapeImage.tape
        (h.write (.record (bytesOf (x.ioMemory.load x.device.mRegB n))))) := by
  obtain ⟨s, hopen, hd, -⟩ := reOpen_opens hs
  have hlen : (bytesOf (x.ioMemory.load x.device.mRegB n)).length = 2 * n := by
    rw [length_bytesOf, IoMemory.length_load]
  obtain ⟨s', hwrite, hd'⟩ := writeRecord_steps hd hfits
    (List.ne_nil_of_length_pos (hlen ▸ Nat.mul_pos Nat.two_pos hpos)) (by omega)
  obtain ⟨x', hfinal, haccounts, himage, -⟩ := finalizeControl_ok hscan statusReady
    (withImage { x with device := advance n x.device } s')
  refine ⟨x', ?_, ⟨haccounts.done, haccounts.busy, haccounts.active,
    haccounts.regB.trans (BitVec.add_zero _), haccounts.regC.trans (BitVec.add_zero _)⟩,
    fun hsafe => himage ▸ hd' hsafe⟩
  rw [writeForward, if_neg Bool.false_ne_true, onTape_bind hopen]
  refine (count_bind hcount _).trans ?_
  refine (onTape_bind (x := withImage x s) (tellg_described hd) _).trans ?_
  exact (onTape_bind (x := withImage { x with device := advance n x.device } s) hwrite _).trans hfinal

/-! ## 3. Spacing -/

/-- The device behind the loop of a space command: it has gone over all `n` records, or it has ended
    the command at a mark or at the end of the tape. -/
structure Spaced (n passed : Nat) (x x' : Plugged IopExpTape) : Prop where
  regB : x'.device.mRegB = x.device.mRegB
  regC : x'.device.mRegC = x.device.mRegC + BitVec.ofNat 16 passed
  ends : passed = n ∨ passed < n ∧ Accounts 0 passed x x'

omit hscan

/-- The device after a record. -/
def counted (x : Plugged IopExpTape) (s : PokedTapFile) : Plugged IopExpTape :=
  { x with device := { x.device with mTapeImage := s, mRegC := x.device.mRegC + 1 } }

theorem regC_counted (s : PokedTapFile) (p : Nat) :
    (counted x s).device.mRegC + BitVec.ofNat 16 p = x.device.mRegC + BitVec.ofNat 16 (p + 1) :=
  (WordField.add_ofNat_succ _ p).symm

theorem Spaced.count {n p : Nat} {x' : Plugged IopExpTape}
    (h : Spaced n p (counted x s) x') : Spaced (n + 1) (p + 1) x x' := by
  refine ⟨h.regB, h.regC.trans (regC_counted s p), ?_⟩
  rcases h.ends with hall | ⟨hlt, hends⟩
  · exact .inl (congrArg (· + 1) hall)
  · exact .inr ⟨Nat.succ_lt_succ hlt, hends.done, hends.busy, hends.active, hends.regB,
      hends.regC.trans (regC_counted s p)⟩

theorem spaceRecords_round {state : TapState} (n : Nat)
    (hseek : seek x.device.mTapeImage = (.ok (), s)) (hstate : PokedTapFile.getState s = (.ok state, s)) :
    spaceRecords scan seek (n + 1) x =
      if state = .EndOfTape ∨ state = .EndOfFile then
        finalizeControl scan (statusReady ||| statusError) (withImage x s)
      else spaceRecords scan seek n (counted x s) := by
  rw [spaceRecords, onTape_bind hseek]
  exact onTape_bind (x := withImage x s) hstate _

theorem spaceRecords_error {e : TapExn} (n : Nat)
    (hseek : seek x.device.mTapeImage = (.error e, s)) :
    spaceRecords scan seek (n + 1) x = .error (tapExn e) := by
  rw [spaceRecords]
  exact onTape_bind_error hseek _

/-- A step forward ends the loop, or passes a record. -/
theorem stateAhead_cases (h : TapHead) :
    (stateAhead h = .EndOfTape ∨ stateAhead h = .EndOfFile) ∧
        (∀ n, h.spaceForward (n + 1) = (0, h.next)) ∨
      stateAhead h = .EndOfRecord ∧ RestFits h.next ∧ ∀ n, h.spaceForward (n + 1) =
        ((h.next.spaceForward n).1 + 1, (h.next.spaceForward n).2) := by
  rcases h with ⟨behind, _ | ⟨data | _, front⟩⟩ | ⟨behind, done, todo, front⟩
  · exact .inl ⟨.inl rfl, fun n => rfl⟩
  · exact .inr ⟨rfl, trivial, fun n => rfl⟩
  · exact .inl ⟨.inr rfl, fun n => rfl⟩
  · exact .inr ⟨rfl, trivial, fun n => rfl⟩

include hscan

theorem finalizeControl_spaced (n : Nat) (x : Plugged IopExpTape) (s : PokedTapFile) :
    ∃ x', finalizeControl scan (statusReady ||| statusError) (withImage x s) = .ok x' ∧
      Spaced (n + 1) 0 x x' ∧ x'.device.mTapeImage = s := by
  obtain ⟨x', hfinal, haccounts, himage, -⟩ :=
    finalizeControl_ok hscan (statusReady ||| statusError) (withImage x s)
  exact ⟨x', hfinal, ⟨haccounts.regB.trans (BitVec.add_zero _), haccounts.regC,
    .inr ⟨Nat.succ_pos n, haccounts.done, haccounts.busy, haccounts.active, haccounts.regB,
      haccounts.regC⟩⟩, himage⟩

/-- **Spacing forward** counts the records it passes. -/
theorem spaceRecords_forward (n : Nat) (hd : Describes x.device.mTapeImage.tape h)
    (hfits : ∀ y ∈ h.items, ItemFits y) (hlen : (tapeImage h).length < 2 ^ 63) (hrest : RestFits h) :
    ∃ x', spaceRecords scan seekToNextRecord n x = .ok x' ∧
      Spaced n (h.spaceForward n).1 x x' ∧
      Describes x'.device.mTapeImage.tape (h.spaceForward n).2 := by
  induction n generalizing x h with
  | zero => exact ⟨x, rfl, ⟨rfl, (BitVec.add_zero _).symm, .inl rfl⟩, hd⟩
  | succ n ih =>
    obtain ⟨s, hseek, hd', hstate⟩ := seekToNextRecord_steps hd hfits hlen hrest
    rw [spaceRecords_round n hseek hstate]
    rcases stateAhead_cases h with ⟨hend, hspace⟩ | ⟨hrecord, hnext, hspace⟩
    · obtain ⟨x', hfinal, hspaced, himage⟩ := finalizeControl_spaced hscan n x s
      rw [if_pos hend, hspace]
      exact ⟨x', hfinal, hspaced, himage ▸ hd'⟩
    · obtain ⟨x', hx', hspaced, hdx⟩ := ih (x := counted x s) hd' (Head.items_next h ▸ hfits)
        ((length_tapeImage_next h).trans_lt hlen) hnext
      rw [hrecord, if_neg (by decide), hspace]
      exact ⟨x', hx', hspaced.count, hdx⟩

omit hscan

/-- At the load point spacing backward goes on counting. -/
theorem spaceRecords_loadPoint (n : Nat) {front : List TapItem}
    (hd : Describes x.device.mTapeImage.tape (.between [] front)) (hfits : ∀ y ∈ front, ItemFits y)
    (hshort : ∀ y ∈ front, y.length + 8 < 2 ^ 32)
    (hlen : (tapeImage (.between [] front)).length < 2 ^ 63) :
    ∃ x', spaceRecords scan seekToPrevRecord n x = .ok x' ∧
      x'.device.mRegC = x.device.mRegC + BitVec.ofNat 16 n := by
  induction n generalizing x with
  | zero => exact ⟨x, rfl, (BitVec.add_zero _).symm⟩
  | succ n ih =>
    obtain ⟨s, hseek, hstep⟩ := (seekToPrevRecord_step hd hfits hshort hlen).1 trivial
    obtain ⟨x', hx', hregC⟩ := ih (x := counted x s) hstep.describes
    rw [spaceRecords_round n hseek hstep.state]
    exact ⟨x', hx', hregC.trans (regC_counted s n)⟩

/-- A step backward arrives at the load point, over a record or not, or it passes a mark, or a record
    that is not the first item. -/
theorem spaceBackward_cases (h : TapHead) :
    stateBehind h = .BeginningOfTape ∧ (∃ front, h.prev = .between [] front) ∧
        (∀ n, (h.spaceBackward (n + 1)).1 = if PassesRecord h then 1 else 0) ∧
        (PassesRecord h → (h.spaceBackward 1).2 = h.prev) ∨
      stateBehind h = .EndOfFile ∧ (∀ n, h.spaceBackward (n + 1) = (0, h.prev)) ∨
      stateBehind h = .EndOfRecord ∧ ∀ n, h.spaceBackward (n + 1) =
        ((h.prev.spaceBackward n).1 + 1, (h.prev.spaceBackward n).2) := by
  have hstart : ∀ (n : Nat) (front : List TapItem),
      ((Head.between [] front).spaceBackward n).1 = 0 := by
    intro n front
    cases n <;> rfl
  rcases h with ⟨_ | ⟨_ | _, _ | ⟨y, behind⟩⟩, front⟩ | ⟨_ | ⟨y, behind⟩, done, todo, front⟩
  · exact .inl ⟨rfl, ⟨front, rfl⟩, fun n => rfl, fun hrecord => absurd hrecord id⟩
  · exact .inl ⟨rfl, ⟨_, rfl⟩, fun n => congrArg (· + 1) (hstart n _), fun _ => rfl⟩
  · exact .inr (.inr ⟨rfl, fun n => rfl⟩)
  · exact .inl ⟨rfl, ⟨_, rfl⟩, fun n => rfl, fun hrecord => absurd hrecord id⟩
  · exact .inr (.inl ⟨rfl, fun n => rfl⟩)
  · exact .inl ⟨rfl, ⟨_, rfl⟩, fun n => congrArg (· + 1) (hstart n _), fun _ => rfl⟩
  · exact .inr (.inr ⟨rfl, fun n => rfl⟩)

include hscan

/-- **Spacing backward** counts the records it passes as long as it neither fails an assertion nor goes
    on at the load point; otherwise it raises an exception, or counts more than it passes. -/
theorem spaceRecords_backward (n : Nat) (hd : Describes x.device.mTapeImage.tape h)
    (hfits : ∀ y ∈ h.items, ItemFits y) (hshort : ∀ y ∈ h.items, y.length + 8 < 2 ^ 32)
    (hlen : (tapeImage h).length < 2 ^ 63) :
    (BackOk n (kept x.device.mTapeImage) h → ∃ x', spaceRecords scan seekToPrevRecord n x = .ok x' ∧
        Spaced n (h.spaceBackward n).1 x x' ∧
        Describes x'.device.mTapeImage.tape (h.spaceBackward n).2) ∧
      (¬ BackOk n (kept x.device.mTapeImage) h →
        (∃ e, spaceRecords scan seekToPrevRecord n x = .error e) ∨
          (h.spaceBackward n).1 < n ∧ ∃ x', spaceRecords scan seekToPrevRecord n x = .ok x' ∧
            x'.device.mRegC = x.device.mRegC + BitVec.ofNat 16 n) := by
  induction n generalizing x h with
  | zero =>
    exact ⟨fun _ => ⟨x, rfl, ⟨rfl, (BitVec.add_zero _).symm, .inl rfl⟩, hd⟩,
      fun hnot => absurd trivial hnot⟩
  | succ n ih =>
    obtain ⟨hok, herror⟩ := seekToPrevRecord_step hd hfits hshort hlen
    have hitems := Head.items_prev h
    have hleft := (length_tapeImage_prev h).trans_lt hlen
    rw [BackOk]
    rcases spaceBackward_cases h with ⟨hstate, ⟨front, hprev⟩, hpassed, hspace⟩ | ⟨hstate, hspace⟩ |
      ⟨hstate, hspace⟩
    · obtain ⟨s, hseek, hstep⟩ := hok (backsOver_loadPoint _ hstate)
      have hat := hstep.describes
      rw [if_pos hstate, spaceRecords_round n hseek hstep.state, hstate, if_neg (by decide), hpassed]
      constructor
      · intro hlast
        obtain ⟨rfl, hrecord⟩ := hlast
        rw [if_pos hrecord, hspace hrecord]
        exact ⟨counted x s, rfl, ⟨rfl, rfl, .inl rfl⟩, hat⟩
      · intro hnot
        rw [hprev] at hat hitems hleft
        rw [← hitems] at hfits hshort
        obtain ⟨x', hx', hregC⟩ := spaceRecords_loadPoint (x := counted x s) n hat hfits hshort hleft
        refine .inr ⟨?_, x', hx', hregC.trans (regC_counted s n)⟩
        split
        · rename_i hrecord
          have hne : n ≠ 0 := fun hzero => hnot ⟨hzero, hrecord⟩
          omega
        · exact Nat.succ_pos n
    · rw [if_neg (by rw [hstate]; decide), hspace]
      by_cases hback : BacksOver (kept x.device.mTapeImage) h
      · obtain ⟨s, hseek, hstep⟩ := hok hback
        refine ⟨fun _ => ?_, fun hnot => absurd ⟨hback, fun hne => ?_⟩ hnot⟩
        · obtain ⟨x', hfinal, hspaced, himage⟩ := finalizeControl_spaced hscan n x s
          rw [spaceRecords_round n hseek hstep.state, hstate, if_pos (by decide)]
          exact ⟨x', hfinal, hspaced, himage ▸ hstep.describes⟩
        · rw [hstate] at hne
          cases hne
      · obtain ⟨e, s, hseek⟩ := herror hback
        exact ⟨fun hall => absurd hall.1 hback, fun _ => .inl ⟨_, spaceRecords_error n hseek⟩⟩
    · rw [if_neg (by rw [hstate]; decide), hspace]
      by_cases hback : BacksOver (kept x.device.mTapeImage) h
      · obtain ⟨s, hseek, hstep⟩ := hok hback
        obtain ⟨hfirst, hlater⟩ := ih (x := counted x s) hstep.describes (hitems ▸ hfits)
          (hitems ▸ hshort) hleft
        rw [show kept (counted x s).device.mTapeImage = _ from hstep.kept hstate] at hfirst hlater
        rw [spaceRecords_round n hseek hstep.state, hstate, if_neg (by decide)]
        constructor
        · intro hall
          obtain ⟨x', hx', hspaced, hdx⟩ := hfirst (hall.2 rfl)
          exact ⟨x', hx', hspaced.count, hdx⟩
        · intro hnot
          rcases hlater fun hrest => hnot ⟨hback, fun _ => hrest⟩ with herr | ⟨hlt, x', hx', hregC⟩
          · exact .inl herr
          · exact .inr ⟨Nat.succ_lt_succ hlt, x', hx', hregC.trans (regC_counted s n)⟩
      · obtain ⟨e, s, hseek⟩ := herror hback
        exact ⟨fun hall => absurd hall.1 hback, fun _ => .inl ⟨_, spaceRecords_error n hseek⟩⟩

/-! ## 4. Commands -/

/-- The command ends with the head at `h`, having moved `words` words and counted `passed`. -/
def Counts (r : Except Exn (Plugged IopExpTape)) (words passed : Nat) (x : Plugged IopExpTape)
    (h : TapHead) : Prop :=
  ∃ x', r = .ok x' ∧ Accounts words passed x x' ∧ Describes x'.device.mTapeImage.tape h

omit hscan

/-- A space command is its loop on the opened tape, and ends there or behind it. -/
theorem space_eq (hopen : reOpen x.device.mTapeImage = (.ok (), s)) (hd : Describes s.tape h)
    (hcount : count x.device = .ok n) :
    space scan seek x = (spaceRecords scan seek n (withImage x s) >>= fun x' =>
      if x'.device.mRegC = 0 then finalizeControl scan statusReady x' else .ok x') := by
  rw [space, onTape_bind hopen]
  refine (count_bind hcount _).trans ?_
  exact onTape_bind (x := withImage x s) (tellg_described hd) _

include hscan

/-- Register C is zero behind the loop exactly if all the records have been passed. -/
theorem space_counts {n p : Nat} {h' : TapHead}
    (hopen : reOpen x.device.mTapeImage = (.ok (), s)) (hd : Describes s.tape h)
    (hcount : count x.device = .ok n)
    (hzero : ∀ m ≤ n, (x.device.mRegC + BitVec.ofNat 16 m = 0 ↔ m = n))
    (hloop : ∃ x', spaceRecords scan seek n (withImage x s) = .ok x' ∧
      Spaced n p (withImage x s) x' ∧ Describes x'.device.mTapeImage.tape h') :
    Counts (space scan seek x) 0 p x h' := by
  obtain ⟨x', hx', hspaced, hd'⟩ := hloop
  have hregC : x'.device.mRegC = x.device.mRegC + BitVec.ofNat 16 p := hspaced.regC
  rw [space_eq hopen hd hcount, hx']
  show Counts (if x'.device.mRegC = 0 then finalizeControl scan statusReady x' else .ok x') 0 p x h'
  rcases hspaced.ends with hall | ⟨hlt, hends⟩
  · obtain ⟨y, hfinal, haccounts, himage, -⟩ := finalizeControl_ok hscan statusReady x'
    rw [if_pos (hregC.trans ((hzero p hall.le).2 hall))]
    refine ⟨y, hfinal, ⟨haccounts.done, haccounts.busy, haccounts.active, ?_, ?_⟩, himage ▸ hd'⟩
    · rw [haccounts.regB, hspaced.regB]
      rfl
    · rw [haccounts.regC, hregC]
      exact BitVec.add_zero _
  · rw [if_neg fun hz => Nat.ne_of_lt hlt ((hzero p hlt.le).1 (hregC ▸ hz))]
    exact ⟨x', rfl, ⟨hends.done, hends.busy, hends.active, hends.regB, hends.regC⟩, hd'⟩

omit hscan

/-- A START clears the status first; the registers are as they were. -/
def cleared (x : Plugged IopExpTape) : Plugged IopExpTape :=
  { x with device := { x.device with mRegAStat := 0 } }

theorem Accounts.of_cleared {words passed : Nat} {x' : Plugged IopExpTape}
    (h : Accounts words passed (cleared x) x') : Accounts words passed x x' :=
  ⟨h.done, h.busy, h.active, h.regB, h.regC⟩

theorem counts_cleared {r : Except Exn (Plugged IopExpTape)} {words passed : Nat} {h' : TapHead} :
    Counts r words passed (cleared x) h' ↔ Counts r words passed x h' :=
  ⟨fun ⟨x', hr, h, hd⟩ => ⟨x', hr, h.of_cleared, hd⟩,
    fun ⟨x', hr, h, hd⟩ => ⟨x', hr, ⟨h.done, h.busy, h.active, h.regB, h.regC⟩, hd⟩⟩

/-- The command in register A. -/
def command (d : IopExpTape) : Nat := (d.mRegA >>> 3 &&& 7).toNat

theorem start_eq (mIsReadOnly : Bool) (x : Plugged IopExpTape) :
    start mIsReadOnly scan x = match command x.device with
      | 0 => readForward scan (cleared x)
      | 1 => rewind scan (cleared x)
      | 3 => space scan PokedTapFile.seekToNextRecord (cleared x)
      | 4 => space scan PokedTapFile.seekToPrevRecord (cleared x)
      | 5 => writeForward mIsReadOnly scan (cleared x)
      | 6 => writeEOF mIsReadOnly scan (cleared x)
      | _ => .error .assertion := rfl

include hscan

/-- Spacing forward counts right, unless the head is in a record whose rest is too long. -/
theorem spaceForward_counts (hs : OnDrive x.device.mTapeImage.tape h)
    (hfits : ∀ y ∈ h.items, ItemFits y) (hlen : (tapeImage h).length < 2 ^ 63)
    (hneg : x.device.mRegC.toInt = -(n : Int)) (hpos : 0 < n) :
    Counts (space scan seekToNextRecord x) 0 (h.spaceForward n).1 x (h.spaceForward n).2 ↔
      RestFits h := by
  obtain ⟨hcount, -, hzero⟩ := count_ok hneg hpos
  obtain ⟨s, hopen, hd, -⟩ := reOpen_opens hs
  constructor
  · intro hcounts
    obtain ⟨x', hx', -, -⟩ := hcounts
    by_contra hrest
    obtain ⟨s', hseek⟩ := seekToNextRecord_refuses hd hlen hrest
    obtain ⟨m, rfl⟩ := Nat.exists_eq_add_one.mpr hpos
    rw [space_eq hopen hd hcount, spaceRecords_error (x := withImage x s) m hseek] at hx'
    cases hx'
  · intro hrest
    exact space_counts hscan hopen hd hcount hzero
      (spaceRecords_forward hscan (x := withImage x s) n hd hfits hlen hrest)

/-- Spacing backward counts right as long as it fails no assertion and stops in front of the load
    point. -/
theorem spaceBackward_counts (hs : OnDrive x.device.mTapeImage.tape h)
    (hfits : ∀ y ∈ h.items, ItemFits y) (hshort : ∀ y ∈ h.items, y.length + 8 < 2 ^ 32)
    (hlen : (tapeImage h).length < 2 ^ 63)
    (hneg : x.device.mRegC.toInt = -(n : Int)) (hpos : 0 < n) :
    Counts (space scan seekToPrevRecord x) 0 (h.spaceBackward n).1 x (h.spaceBackward n).2 ↔
      BackOk n (kept x.device.mTapeImage) h := by
  obtain ⟨hcount, hmax, hzero⟩ := count_ok hneg hpos
  obtain ⟨s, hopen, hd, hcase⟩ := reOpen_opens hs
  have hsame : BackOk n (kept s) h ↔ BackOk n (kept x.device.mTapeImage) h := by
    rcases hcase with rfl | hstart
    · exact Iff.rfl
    · obtain ⟨m, rfl⟩ := Nat.exists_eq_add_one.mpr hpos
      rw [hstart]
      exact Iff.rfl
  obtain ⟨hright, hwrong⟩ := spaceRecords_backward hscan (x := withImage x s) n hd hfits hshort hlen
  rw [← hsame]
  constructor
  · intro hcounts
    obtain ⟨x', hx', haccounts, -⟩ := hcounts
    by_contra hback
    rw [space_eq hopen hd hcount] at hx'
    rcases hwrong hback with ⟨e, herror⟩ | ⟨hlt, y, hy, hregC⟩
    · rw [herror] at hx'
      cases hx'
    · -- the loop has counted to zero, and fewer records have been passed
      have hy0 : y.device.mRegC = 0 := hregC.trans ((hzero n (Nat.le_refl n)).2 rfl)
      obtain ⟨z, hfinal, hz, -⟩ := finalizeControl_ok hscan statusReady y
      rw [hy] at hx'
      have hend : finalizeControl scan statusReady y = .ok x' := (if_pos hy0).symm.trans hx'
      obtain rfl := Except.ok.inj (hfinal.symm.trans hend)
      have hpassed := haccounts.regC
      rw [hz.regC, hy0] at hpassed
      exact Nat.ne_of_lt hlt ((hzero _ hlt.le).1 hpassed.symm)
  · intro hback
    exact space_counts hscan hopen hd hcount hzero (hright hback)

/-- **The commands of the tape**, for every tape, every place of the head and every count. A read
    and a write always count right, and so does spacing forward but for a record that is too long;
    on a tape of shorter records spacing backward does as long as it fails no assertion, and its last
    step is the one that arrives at the load point if any does. -/
theorem command_accounts (mIsReadOnly : Bool) (hs : OnDrive x.device.mTapeImage.tape h)
    (hfits : ∀ y ∈ h.items, ItemFits y) (hlen : (tapeImage h).length < 2 ^ 63) {n : Nat}
    (hneg : x.device.mRegC.toInt = -(n : Int)) (hpos : 0 < n) :
    (command x.device = 0 → ∃ data x', start mIsReadOnly scan x = .ok x' ∧
      data.length = (h.read (2 * n)).1.length ∧
      x'.ioMemory = x.ioMemory.store x.device.mRegB (parcelsOf data) ∧
      Accounts (parcelsOf data).length (parcelsOf data).length x x' ∧
      Describes x'.device.mTapeImage.tape (h.read (2 * n)).2) ∧
    (command x.device = 3 → (Counts (start mIsReadOnly scan x) 0 (h.spaceForward n).1 x
      (h.spaceForward n).2 ↔ RestFits h)) ∧
    (command x.device = 4 → (∀ y ∈ h.items, y.length + 8 < 2 ^ 32) →
      (Counts (start mIsReadOnly scan x) 0 (h.spaceBackward n).1 x (h.spaceBackward n).2 ↔
        BackOk n (kept x.device.mTapeImage) h)) ∧
    (command x.device = 5 → mIsReadOnly = false → ∃ x', start mIsReadOnly scan x = .ok x' ∧
      Accounts n n x x' ∧ (WriteSafe h → Describes x'.device.mTapeImage.tape
        (h.write (.record (bytesOf (x.ioMemory.load x.device.mRegB n)))))) := by
  obtain ⟨hcount, hmax, -⟩ := count_ok hneg hpos
  refine ⟨fun hc => ?_, fun hc => ?_, fun hc hshort => ?_, fun hc hwrite => ?_⟩
  · obtain ⟨data, x', hx', hdata, hmem, haccounts, hd⟩ :=
      read_accounts hscan (x := cleared x) hs hfits hlen hcount hpos hmax
    rw [start_eq, hc]
    exact ⟨data, x', hx', hdata, hmem, haccounts.of_cleared, hd⟩
  · rw [start_eq, hc, ← counts_cleared]
    exact spaceForward_counts hscan (x := cleared x) hs hfits hlen hneg hpos
  · rw [start_eq, hc, ← counts_cleared]
    exact spaceBackward_counts hscan (x := cleared x) hs hfits hshort hlen hneg hpos
  · obtain ⟨x', hx', haccounts, hd⟩ :=
      write_accounts hscan (x := cleared x) hs hfits hcount hpos hmax
    rw [start_eq, hc, hwrite]
    exact ⟨x', hx', haccounts.of_cleared, hd⟩

end commands

/-- A device told to space backward over one record. -/
def spacingBack (s : PokedTapFile) : Plugged IopExpTape :=
  ⟨{ IopExpTape.new s with mRegA := 0x20, mRegC := 0xffff }, fun _ => 0, false⟩

/-- Spacing backward over the record behind the head, from behind the end of a tape with a mark. -/
theorem command_accounts_back : Counts (start false (fun _ => .ok false)
    (spacingBack ⟨⟨.ready (image itemBytes [.record [1], .mark, .record [2]]) 22, .Forward, 0, 5, false,
      false⟩, [1], 1, 1, none⟩)) 0 1
    (spacingBack ⟨⟨.ready (image itemBytes [.record [1], .mark, .record [2]]) 22, .Forward, 0, 5, false,
      false⟩, [1], 1, 1, none⟩) (.between [.mark, .record [1]] [.record [2]]) :=
  ((command_accounts (n := 1) (h := .between [.record [2], .mark, .record [1]] [])
    (fun _ => ⟨false, rfl⟩) false
    (.inl (.between (.inl rfl) (.inl ⟨rfl, fun heof => absurd heof Bool.false_ne_true⟩)))
    (by simp [Head.items, ItemFits]) (by decide) (by decide) Nat.one_pos).2.2.1 rfl
    (by simp [Head.items, Item.length])).2 (by decide)

/-- At the load point spacing backward counts a record that it does not pass. -/
theorem spaceBackward_overcounts : ¬ ∀ (x : Plugged IopExpTape) (h : TapHead) (n : Nat),
    OnDrive x.device.mTapeImage.tape h → (∀ y ∈ h.items, ItemFits y) →
      (tapeImage h).length < 2 ^ 63 → x.device.mRegC.toInt = -(n : Int) → 0 < n →
        command x.device = 4 → Counts (start false (fun _ => .ok false) x) 0 (h.spaceBackward n).1 x
          (h.spaceBackward n).2 := by
  intro hall
  have hd := describes_ofDisk [.record [1], .mark] false
  have hfits : ∀ y ∈ ([.record [1], .mark] : List TapItem), ItemFits y := by simp [ItemFits]
  have hshort : ∀ y ∈ ([.record [1], .mark] : List TapItem), y.length + 8 < 2 ^ 32 := by
    simp [Item.length]
  have hcounts := hall (spacingBack (ofDisk (some (image itemBytes [.record [1], .mark])) false))
    (.between [] [.record [1], .mark]) 1 (.inl hd) hfits (by decide) (by decide) Nat.one_pos rfl
  rw [start_eq, show command _ = 4 from rfl, ← counts_cleared] at hcounts
  have hback := (spaceBackward_counts (x := cleared (spacingBack
    (ofDisk (some (image itemBytes [.record [1], .mark])) false))) (fun _ => ⟨false, rfl⟩) (.inl hd)
    hfits hshort (by decide) (by decide) Nat.one_pos).1 hcounts
  exact absurd hback (by decide)

end IopExpTape

end CraySim
