/-
  Subject:   Spacing over the files of a block multiplexer tape.

  Forward Space File ends behind the next mark, or at the end of the tape. Backspace File ends in
  front of the mark behind it if `GetState` reports a mark there; the load point is no reason for
  its loop to end, and a mark that is the first item of the tape is reported as the load point.

  * `spaceFile_forward` -- the loop of Forward Space File,
  * `spaceFile_loadPoint` -- the loop of Backspace File at the load point,
  * `spaceFile_backward` -- and everywhere else,
  * `spaceFile_terminates` -- when the two controls end, and where.
-/
import CraySim.IopBmx
import CraySim.PokedTapSpacing

namespace CraySim

open Framed Tape TapFile

namespace IopBmxTape

open PokedTapFile

/-! ## 1. Forward -/

section loops
variable {s : PokedTapFile} {h : TapHead}

theorem spaceFile_round {seek : Poked Unit} {s s' : PokedTapFile} {state : TapState} (fuel : Nat)
    (hseek : seek s = (.ok (), s')) (hstate : getState s' = (.ok state, s')) :
    spaceFile seek (fuel + 1) s =
      if state = .EndOfTape ∨ state = .EndOfFile then (.ok (), s') else spaceFile seek fuel s' := by
  rw [spaceFile, Run.bind_apply_ok hseek, Run.bind_apply_ok hstate]
  split <;> rfl

theorem spaceFile_error {seek : Poked Unit} {s s' : PokedTapFile} {e : TapExn}
    (hseek : seek s = (.error e, s')) (fuel : Nat) (r : PokedTapFile) :
    spaceFile seek fuel s ≠ (.ok (), r) := by
  intro hr
  cases fuel with
  | zero => cases hr
  | succ fuel =>
    rw [spaceFile, Run.bind_apply_error hseek] at hr
    cases hr

/-- Between two items: over the records up to the next mark. -/
theorem spaceFile_between {behind front : List TapItem}
    (hd : Describes s.tape (.between behind front))
    (hfits : ∀ x ∈ Head.items (.between behind front), ItemFits x)
    (hlen : (tapeImage (.between behind front)).length < 2 ^ 63) :
    ∃ s', spaceFile seekToNextRecord (front.length + 1) s = (.ok (), s') ∧
      Describes s'.tape (Head.overMark behind front) := by
  induction front generalizing s behind with
  | nil =>
    obtain ⟨s', hseek, hd', hstate⟩ := seekToNextRecord_steps hd hfits hlen trivial
    exact ⟨s', spaceFile_round _ hseek hstate, hd'⟩
  | cons x front ih =>
    obtain ⟨s', hseek, hd', hstate⟩ := seekToNextRecord_steps hd hfits hlen trivial
    cases x with
    | mark => exact ⟨s', spaceFile_round _ hseek hstate, hd'⟩
    | record data =>
      have hitems := Head.items_next (.between behind (.record data :: front))
      obtain ⟨r, hr, hdr⟩ := ih hd' (hitems ▸ hfits)
        ((length_tapeImage_next (.between behind (.record data :: front))).trans_lt hlen)
      exact ⟨r, (spaceFile_round _ hseek hstate).trans hr, hdr⟩

/-- **Forward Space File** ends behind the next mark or at the end of the tape. -/
theorem spaceFile_forward (hd : Describes s.tape h) (hfits : ∀ x ∈ h.items, ItemFits x)
    (hlen : (tapeImage h).length < 2 ^ 63) (hrest : RestFits h) :
    ∃ fuel s', spaceFile seekToNextRecord fuel s = (.ok (), s') ∧ Describes s'.tape h.nextMark := by
  rcases h with ⟨behind, front⟩ | ⟨behind, done, todo, front⟩
  · exact ⟨_, spaceFile_between hd hfits hlen⟩
  · obtain ⟨s', hseek, hd', hstate⟩ := seekToNextRecord_steps hd hfits hlen hrest
    have hitems := Head.items_next (.inside behind done todo front)
    obtain ⟨r, hr, hdr⟩ := spaceFile_between hd' (hitems ▸ hfits)
      ((length_tapeImage_next (.inside behind done todo front)).trans_lt hlen)
    exact ⟨front.length + 2, r, (spaceFile_round _ hseek hstate).trans hr, hdr⟩

/-! ## 2. Backward -/

theorem spaceFile_loadPoint {front : List TapItem} (hd : Describes s.tape (.between [] front))
    (hfits : ∀ x ∈ front, ItemFits x) (hshort : ∀ x ∈ front, x.length + 8 < 2 ^ 32)
    (hlen : (tapeImage (.between [] front)).length < 2 ^ 63) (fuel : Nat) :
    ∃ s', spaceFile seekToPrevRecord fuel s = (.error .undefinedBehaviour, s') := by
  induction fuel generalizing s with
  | zero => exact ⟨s, rfl⟩
  | succ fuel ih =>
    obtain ⟨s', hseek, hstep⟩ := (seekToPrevRecord_step hd hfits hshort hlen).1 trivial
    rw [spaceFile_round fuel hseek hstep.state]
    exact ih hstep.describes

/-- The items that are behind the head, and the record it is in. -/
def behindCount : TapHead → Nat
  | .between behind _ => behind.length
  | .inside behind _ _ _ => behind.length + 1

theorem behindCount_pos {h : TapHead} (hrecord : PassesRecord h) : 0 < behindCount h := by
  rcases h with ⟨_ | ⟨x, behind⟩, front⟩ | ⟨behind, done, todo, front⟩
  · exact absurd hrecord id
  · exact Nat.succ_pos _
  · exact Nat.succ_pos _

theorem stateBehind_cases (h : TapHead) :
    stateBehind h = .BeginningOfTape ∧ (∃ front, h.prev = .between [] front) ∨
      stateBehind h = .EndOfFile ∧ h.prevMark = h.prev ∨
      stateBehind h = .EndOfRecord ∧ h.prevMark = h.prev.prevMark ∧
        behindCount h = behindCount h.prev + 1 := by
  rcases h with ⟨_ | ⟨_ | _, _ | ⟨x, behind⟩⟩, front⟩ | ⟨_ | ⟨x, behind⟩, done, todo, front⟩
  · exact .inl ⟨rfl, front, rfl⟩
  · exact .inl ⟨rfl, _, rfl⟩
  · exact .inr (.inr ⟨rfl, rfl, rfl⟩)
  · exact .inl ⟨rfl, _, rfl⟩
  · exact .inr (.inl ⟨rfl, rfl⟩)
  · exact .inl ⟨rfl, _, rfl⟩
  · exact .inr (.inr ⟨rfl, rfl, rfl⟩)

/-- **Backspace File** ends in front of the mark behind the head if it gets to a mark that is not the
    first item; otherwise it does not end. -/
theorem spaceFile_backward (n : Nat) (hn : behindCount h < n) (hd : Describes s.tape h)
    (hfits : ∀ x ∈ h.items, ItemFits x) (hshort : ∀ x ∈ h.items, x.length + 8 < 2 ^ 32)
    (hlen : (tapeImage h).length < 2 ^ 63) :
    (BackOk n (kept s) h → ∃ fuel s', spaceFile seekToPrevRecord fuel s = (.ok (), s') ∧
        Describes s'.tape h.prevMark) ∧
      (¬ BackOk n (kept s) h → ∀ fuel s', spaceFile seekToPrevRecord fuel s ≠ (.ok (), s')) := by
  induction n generalizing s h with
  | zero => exact absurd hn (Nat.not_lt_zero _)
  | succ n ih =>
    obtain ⟨hok, herror⟩ := seekToPrevRecord_step hd hfits hshort hlen
    rw [BackOk]
    rcases stateBehind_cases h with ⟨hstate, front, hprev⟩ | ⟨hstate, hmark⟩ | ⟨hstate, hmark, hcount⟩
    · -- the loop does not stop at the load point
      obtain ⟨s', hseek, hstep⟩ := hok (backsOver_loadPoint (kept s) hstate)
      have hat := hstep.describes
      have hitems := Head.items_prev h
      have hleft := (length_tapeImage_prev h).trans_lt hlen
      rw [hprev] at hat hitems hleft
      rw [← hitems] at hfits hshort
      rw [if_pos hstate]
      refine ⟨fun ⟨hzero, hrecord⟩ => ?_, fun _ fuel r hr => ?_⟩
      · have hpos := behindCount_pos hrecord
        omega
      · cases fuel with
        | zero => cases hr
        | succ fuel =>
          obtain ⟨t, ht⟩ := spaceFile_loadPoint hat hfits hshort hleft fuel
          rw [spaceFile_round fuel hseek hstep.state, hstate, if_neg (by decide), ht] at hr
          cases hr
    · rw [if_neg (by rw [hstate]; decide), hstate]
      refine ⟨fun hback => ?_, fun hnot fuel r hr => ?_⟩
      · obtain ⟨s', hseek, hstep⟩ := hok hback.1
        refine ⟨1, s', ?_, hmark ▸ hstep.describes⟩
        rw [spaceFile_round 0 hseek hstep.state, hstate]
        rfl
      · obtain ⟨e, s', hseek⟩ := herror fun hback => hnot ⟨hback, nofun⟩
        exact spaceFile_error hseek fuel r hr
    · rw [if_neg (by rw [hstate]; decide), hstate]
      by_cases hback : BacksOver (kept s) h
      · obtain ⟨s', hseek, hstep⟩ := hok hback
        have hitems := Head.items_prev h
        obtain ⟨hfirst, hlater⟩ := ih (by omega) hstep.describes (hitems ▸ hfits) (hitems ▸ hshort)
          ((length_tapeImage_prev h).trans_lt hlen)
        rw [hstep.kept hstate, ← hmark] at hfirst
        rw [hstep.kept hstate] at hlater
        refine ⟨fun hall => ?_, fun hnot fuel r hr => ?_⟩
        · obtain ⟨fuel, r, hr, hd'⟩ := hfirst (hall.2 rfl)
          refine ⟨fuel + 1, r, ?_, hd'⟩
          rw [spaceFile_round fuel hseek hstep.state, hstate]
          exact hr
        · cases fuel with
          | zero => cases hr
          | succ fuel =>
            rw [spaceFile_round fuel hseek hstep.state, hstate] at hr
            exact hlater (fun hrest => hnot ⟨hback, fun _ => hrest⟩) fuel r hr
      · obtain ⟨e, s', hseek⟩ := herror hback
        exact ⟨fun hall => absurd hall.1 hback, fun _ fuel r => spaceFile_error hseek fuel r⟩

/-! ## 3. The controls -/

/-- A control that spaces over a file: some number of rounds is enough for it to end, with the head
    at `h`. -/
def SpacesTo (mIsReadOnly : Bool) (aCommand : BitVec 8) (s : PokedTapFile) (h : TapHead) : Prop :=
  ∃ fuel status s', control mIsReadOnly fuel aCommand s = (.ok status, s') ∧ Describes s'.tape h

theorem backspaceFile_bits (aCommand : BitVec 8) (hc : aCommand &&& 0x3f = 0x2f) :
    aCommand &&& 4 ≠ 0 ∧ (aCommand >>> 3 &&& 7).toNat = 5 := by
  revert aCommand
  decide

theorem forwardSpaceFile_bits (aCommand : BitVec 8) (hc : aCommand &&& 0x3f = 0x3f) :
    aCommand &&& 4 ≠ 0 ∧ (aCommand >>> 3 &&& 7).toNat = 7 := by
  revert aCommand
  decide

/-- What the two controls do: the loop, and the unit check at the end of the tape in its direction. -/
theorem motion_backspaceFile (mIsReadOnly : Bool) {aCommand : BitVec 8}
    (hc : aCommand &&& 0x3f = 0x2f) (fuel : Nat) : motion mIsReadOnly fuel aCommand = (do
      reOpen
      spaceFile seekToPrevRecord fuel
      return 0 ||| if some (← getState) = some .BeginningOfTape then statUnitCheck else 0) := by
  rw [motion, (backspaceFile_bits aCommand hc).2]
  rfl

theorem motion_forwardSpaceFile (mIsReadOnly : Bool) {aCommand : BitVec 8}
    (hc : aCommand &&& 0x3f = 0x3f) (fuel : Nat) : motion mIsReadOnly fuel aCommand = (do
      reOpen
      spaceFile seekToNextRecord fuel
      return 0 ||| if some (← getState) = some .EndOfTape then statUnitCheck else 0) := by
  rw [motion, (forwardSpaceFile_bits aCommand hc).2]
  rfl

section motion
variable {mIsReadOnly : Bool} {aCommand : BitVec 8} {seek : Poked Unit} {f : TapState → BitVec 8}
  {s₁ : PokedTapFile} (hbit : aCommand &&& 4 ≠ 0)
  (hmotion : ∀ fuel, motion mIsReadOnly fuel aCommand =
    (do reOpen; spaceFile seek fuel; return f (← getState)))
  (hopen : reOpen s = (.ok (), s₁))

include hbit hmotion hopen

theorem spacesTo_of_loop
    (hloop : ∃ fuel r, spaceFile seek fuel s₁ = (.ok (), r) ∧ Describes r.tape h) :
    SpacesTo mIsReadOnly aCommand s h := by
  obtain ⟨fuel, r, hr, hd⟩ := hloop
  obtain ⟨state, hstate⟩ := getState_described hd
  have hget : getState r = (.ok state, r) := onTape_ok hstate
  refine ⟨fuel, statDeviceEnd ||| statControlUnitEnd ||| f state, r, ?_, hd⟩
  rw [control, if_neg hbit, hmotion, Run.bind_apply, Run.bind_apply_ok hopen,
    Run.bind_apply_ok hr, Run.bind_apply_ok hget]
  rfl

theorem not_spacesTo_of_loop (hloop : ∀ fuel r, spaceFile seek fuel s₁ ≠ (.ok (), r)) :
    ¬ SpacesTo mIsReadOnly aCommand s h := by
  intro ⟨fuel, status, r, hr, hd⟩
  rw [control, if_neg hbit, hmotion, Run.bind_apply, Run.bind_apply_ok hopen] at hr
  rcases hend : spaceFile seek fuel s₁ with ⟨e | ⟨⟩, t⟩
  · rw [Run.bind_apply_error hend] at hr
    cases hr
  · exact hloop fuel t hend

end motion

/-- **The controls that space over a file**, for every tape and every place of the head. Forward Space
    File always ends behind the next mark or at the end of the tape, unless the head is in a record
    whose rest does not fit in a word. On a tape of shorter records Backspace File ends in front of
    the mark behind the head if there is one that is not the first item of the tape, and no assertion
    fails before it; otherwise it does not end there. -/
theorem spaceFile_terminates (mIsReadOnly : Bool) (aCommand : BitVec 8) (hs : OnDrive s.tape h)
    (hfits : ∀ x ∈ h.items, ItemFits x) (hlen : (tapeImage h).length < 2 ^ 63) :
    (aCommand &&& 0x3f = 0x3f → (SpacesTo mIsReadOnly aCommand s h.nextMark ↔ RestFits h)) ∧
      (aCommand &&& 0x3f = 0x2f → (∀ x ∈ h.items, x.length + 8 < 2 ^ 32) →
        (SpacesTo mIsReadOnly aCommand s h.prevMark ↔ BackOk (behindCount h + 1) (kept s) h)) := by
  obtain ⟨t, hopen, hd, hcase⟩ := reOpen_opens hs
  constructor
  · intro hc
    have hbit := (forwardSpaceFile_bits aCommand hc).1
    have hmotion := motion_forwardSpaceFile mIsReadOnly hc
    constructor
    · intro hto
      by_contra hrest
      obtain ⟨s', hseek⟩ := seekToNextRecord_refuses hd hlen hrest
      exact not_spacesTo_of_loop hbit hmotion hopen (spaceFile_error hseek) hto
    · intro hrest
      exact spacesTo_of_loop hbit hmotion hopen (spaceFile_forward hd hfits hlen hrest)
  · intro hc hshort
    have hbit := (backspaceFile_bits aCommand hc).1
    have hmotion := motion_backspaceFile mIsReadOnly hc
    obtain ⟨hends, hgoes⟩ := spaceFile_backward (behindCount h + 1) (Nat.lt_succ_self _) hd hfits
      hshort hlen
    have hsame : BackOk (behindCount h + 1) (kept t) h ↔ BackOk (behindCount h + 1) (kept s) h := by
      rcases hcase with rfl | hstart
      · exact Iff.rfl
      · rw [hstart]
        exact Iff.rfl
    rw [← hsame]
    constructor
    · intro hto
      by_contra hnot
      exact not_spacesTo_of_loop hbit hmotion hopen (hgoes hnot) hto
    · intro hback
      exact spacesTo_of_loop hbit hmotion hopen (hends hback)

end loops

/-- The two controls on a tape of three items: forward from the first record, and back from behind the
    last one. -/
theorem spaceFile_terminates_items :
    SpacesTo true 0x3f (ofDisk (some (image itemBytes [.record [1], .mark, .record [2]])) false)
        (.between [.mark, .record [1]] [.record [2]]) ∧
      SpacesTo true 0x2f
        ⟨⟨.ready (image itemBytes [.record [1], .mark, .record [2]]) 22, .Forward, 0, 5, false, false⟩,
          [1], 1, 1, none⟩
        (.between [.record [1]] [.mark, .record [2]]) := by
  constructor
  · exact ((spaceFile_terminates (h := .between [] [.record [1], .mark, .record [2]]) true 0x3f
      (.inl (describes_ofDisk _ _)) (by simp [Head.items, ItemFits]) (by decide)).1 rfl).2 trivial
  · exact ((spaceFile_terminates (h := .between [.record [2], .mark, .record [1]] []) true 0x2f
      (.inl (.between (.inl rfl) (.inl ⟨rfl, fun heof => absurd heof Bool.false_ne_true⟩)))
      (by simp [Head.items, ItemFits]) (by decide)).2 rfl (by simp [Head.items, Item.length])).2
      (by decide)

/-- Backspace File at the load point of a tape with a file does not end. -/
theorem backspaceFile_endless : ¬ ∀ (s : PokedTapFile) (h : TapHead), OnDrive s.tape h →
    (∀ x ∈ h.items, ItemFits x) → (tapeImage h).length < 2 ^ 63 →
      (∀ x ∈ h.items, x.length + 8 < 2 ^ 32) → SpacesTo true 0x2f s h.prevMark := by
  intro hall
  have hd := describes_ofDisk [.record [1], .mark] false
  have hfits : ∀ x ∈ ([.record [1], .mark] : List TapItem), ItemFits x := by simp [ItemFits]
  have hshort : ∀ x ∈ ([.record [1], .mark] : List TapItem), x.length + 8 < 2 ^ 32 := by
    simp [Item.length]
  have hto := hall (ofDisk (some (image itemBytes [.record [1], .mark])) false)
    (.between [] [.record [1], .mark]) (.inl hd) hfits (by decide) hshort
  refine not_spacesTo_of_loop (by decide) (motion_backspaceFile true rfl) rfl (fun fuel r hr => ?_) hto
  obtain ⟨t, ht⟩ := spaceFile_loadPoint
    (s := ofDisk (some (image itemBytes [.record [1], .mark])) false) hd hfits hshort (by decide) fuel
  cases ht.symm.trans hr

end IopBmxTape

end CraySim
