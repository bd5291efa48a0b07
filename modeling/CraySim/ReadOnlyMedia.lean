/-
  Subject:   Media that are configured read-only.

  The DD29 disk and both tapes assert that they may write, in front of each command that writes. The
  Ampex and the CDC disk keep the flag and never look at it: a control that writes or formats goes
  through. Along runs without such a control no read-only medium changes.

  * `MediaChannel` -- a channel with media: a disk channel, an expander, a block multiplexer,
  * `readOnlyImage` -- the file of a medium that is read-only,
  * `writesUnchecked` -- a control that writes although the disk is read-only,
  * `…_image` -- what the devices keep, class by class,
  * `read_only_kept` -- every run.
-/
import CraySim.IopBmx
import CraySim.IopChannelExp
import CraySim.IopDisk
import CraySim.TapContents

namespace CraySim

open IopExpDevice

/-! ## 1. Read-only media -/

/-- The file of the disk. -/
def IopDiskDD29.readOnlyImage (c : IopDiskDD29.Config) (d : IopDiskDD29) :
    Option (List (BitVec 8)) :=
  if c.mReadOnly then some d.image else none

/-- The file of a device, if it is a tape or a disk. -/
def ExpDevice.readOnlyImage : ExpDevice → Option (List (BitVec 8))
  | .tape mIsReadOnly d => if mIsReadOnly then d.mTapeImage.tape.stream.disk else none
  | .ampex c d => if c.mReadOnly then d.image else none
  | .cdc c d => if c.mReadOnly then d.image else none
  | _ => none

/-- The file of a tape. -/
def IopBmxTape.readOnlyImage (t : IopBmxTape) : Option (List (BitVec 8)) :=
  if t.mIsReadOnly then t.mTapeImage.tape.stream.disk else none

/-- A control of a read-only disk that writes to it. -/
def ExpDevice.writesUnchecked (aControl : IopInt) : ExpDevice → Bool
  | .ampex c d =>
    c.mReadOnly && aControl &&& ~~~(controlStart ||| controlClear) = 0 &&
      aControl &&& controlStart ≠ 0 && (d.mRegC = 0o10 || d.mRegC = 0o20)
  | .cdc c d =>
    c.mReadOnly && aControl &&& controlStart ≠ 0 &&
      IopExpDiskCDC9448.switched aControl d.mState = .getLowHeadSector &&
      (d.mRegA = 0o3400 || d.mRegA = 0o3600)
  | _ => false

/-! ## 2. The DD29 disk -/

namespace IopDiskDD29

variable {c : Config} {d d' : IopDiskDD29} {v aData : IopInt} {f : Nat}

theorem echo_image (hr : echo d = .ok d') : d'.image = d.image := by
  rw [echo] at hr
  split at hr
  · exact Except.ok.inj hr ▸ rfl
  · split at hr
    · cases hr
    · split at hr <;>
      · obtain rfl := Except.ok.inj hr
        simp only [finish]

/-- An operation of a read-only disk either reads or fails. -/
theorem execOperation_image (hro : c.mReadOnly = true) (hr : execOperation c d = .ok d') :
    d'.image = d.image := by
  rw [execOperation] at hr
  split at hr
  · exact echo_image hr
  · split at hr
    · exact Except.ok.inj hr ▸ rfl
    · split at hr
      · cases hr
      · obtain ⟨_, _, hr⟩ := EventRun.exists_of_bind hr
        exact Except.ok.inj hr ▸ rfl
    · rw [hro, Bool.or_true, if_pos rfl] at hr
      cases hr
    · rw [hro, Bool.or_true, if_pos rfl] at hr
      cases hr

theorem doIo_readOnly (hro : c.mReadOnly = true) (hr : doIo c f aData d = .ok (v, d')) :
    d'.image = d.image := by
  by_cases hf : f = 0o02 ∨ f = 0o03
  · have hexec : ∀ op y, (execOperation c
        { d with mCurrentSector := sectorOf aData, mOperation := op, mDone := false }) = .ok y →
        y.image = d.image := by
      intro op y hy
      have himage := execOperation_image hro hy
      exact himage
    rcases hf with rfl | rfl
    · rw [doIo] at hr
      split at hr
      · cases hr
      · obtain ⟨y, hy, hr⟩ := EventRun.exists_of_bind hr
        exact (Prod.mk.inj (Except.ok.inj hr)).2 ▸ hexec _ y hy
    · rw [doIo] at hr
      split at hr
      · cases hr
      · obtain ⟨y, hy, hr⟩ := EventRun.exists_of_bind hr
        exact (Prod.mk.inj (Except.ok.inj hr)).2 ▸ hexec _ y hy
  · obtain ⟨hread, hwrite⟩ := not_or.mp hf
    have hmargin : f = 0o01 → (aData >>> 9).toNat ≠ 4 := by
      rintro rfl hsel
      rw [doIo, selectMode, hsel] at hr
      cases hr
    obtain ⟨w, y, hdo, himage⟩ := doIo_image c d hread hwrite hmargin
    rw [hdo] at hr
    exact (Prod.mk.inj (Except.ok.inj hr)).2 ▸ himage

end IopDiskDD29

/-! ## 3. The devices of an expander -/

namespace IopExpDevice

variable {D : Type} {scan : D → Except Exn Bool} {x r : Plugged D}

theorem intStatusChanged_device (hr : intStatusChanged scan x = .ok r) : r.device = x.device := by
  obtain ⟨_, _, hr⟩ := EventRun.exists_of_bind hr
  exact Except.ok.inj hr ▸ rfl

end IopExpDevice

namespace IopExpDiskAmpexDM980

variable {c : IopExpDisk.Config} {scan : IopExpDiskAmpexDM980 → Except Exn Bool}
  {x r : Plugged IopExpDiskAmpexDM980} {v : IopInt} {img : List (BitVec 8)}

theorem finish_image (hr : finish scan x = .ok r) : r.device.image = x.device.image := by
  rw [intStatusChanged_device hr]
  rfl

theorem start_image (hread : ¬ (x.device.mRegC = 0o10 ∨ x.device.mRegC = 0o20))
    (h : x.device.image = some img) (hr : start c scan x = .ok r) :
    r.device.image = some img := by
  rw [start] at hr
  split at hr
  · obtain ⟨y, _, hr⟩ := EventRun.exists_of_bind hr
    rw [finish_image hr, h]
    rfl
  · rename_i hreg
    exact absurd (Or.inl (BitVec.eq_of_toNat_eq hreg)) hread
  · rename_i hreg
    exact absurd (Or.inr (BitVec.eq_of_toNat_eq hreg)) hread
  · exact (finish_image hr).trans h
  · exact (finish_image hr).trans h
  · exact Except.ok.inj hr ▸ h

theorem clearInt_device {a : IopInt} (hr : clearInt scan a x = .ok r) :
    r.device.image = x.device.image ∧ r.device.mRegC = x.device.mRegC := by
  rw [clearInt] at hr
  split at hr
  · rw [intStatusChanged_device hr]
    exact ⟨rfl, rfl⟩
  · exact Except.ok.inj hr ▸ ⟨rfl, rfl⟩

theorem control_image {a : IopInt} (hsafe : (ExpDevice.ampex c x.device).writesUnchecked a = false)
    (hro : c.mReadOnly = true) (h : x.device.image = some img) (hr : control c scan a x = .ok r) :
    r.device.image = some img := by
  rw [control] at hr
  split at hr
  · cases hr
  · rename_i hbits
    obtain ⟨y, hclear, hr⟩ := EventRun.exists_of_bind hr
    obtain ⟨himage, hreg⟩ := clearInt_device hclear
    split at hr
    · rename_i hstart
      have hread : ¬ (x.device.mRegC = 0o10 ∨ x.device.mRegC = 0o20) := by
        rw [ExpDevice.writesUnchecked, hro, not_not.mp hbits, decide_eq_true hstart] at hsafe
        simpa using hsafe
      exact start_image (hreg ▸ hread) (himage.trans h) hr
    · exact Except.ok.inj hr ▸ himage.trans h

theorem setRegC_image (w : IopInt) (d : IopExpDiskAmpexDM980) : (d.setRegC w).image = d.image := by
  rw [setRegC]
  split <;> rfl

theorem perform_image {a : Call} (hro : c.mReadOnly = true)
    (hsafe : ∀ w, a = .control w → (ExpDevice.ampex c x.device).writesUnchecked w = false)
    (h : x.device.image = some img) (hr : perform c scan a x = .ok (v, r)) :
    r.device.image = some img := by
  cases a with
  | setIntEnabled b => exact intStatusChanged_device (of_silent hr) ▸ h
  | control w => exact control_image (hsafe w rfl) hro h (of_silent hr)
  | getRegA | getRegB | getRegC => exact (Prod.mk.inj (Except.ok.inj hr)).2 ▸ h
  | setRegC w => exact Except.ok.inj (of_silent hr) ▸ (setRegC_image w x.device).trans h
  | setRegA w | setRegB w | tick =>
    obtain rfl := Except.ok.inj (of_silent hr)
    exact h

end IopExpDiskAmpexDM980

namespace IopExpDiskCDC9448

variable {c : IopExpDisk.Config} {scan : IopExpDiskCDC9448 → Except Exn Bool}
  {x r : Plugged IopExpDiskCDC9448} {v : IopInt} {img : List (BitVec 8)}

theorem finish_image (hr : finish scan x = .ok r) : r.device.image = x.device.image := by
  rw [intStatusChanged_device hr]
  rfl

theorem start_image (hread : x.device.mState = .getLowHeadSector →
      ¬ (x.device.mRegA = 0o3400 ∨ x.device.mRegA = 0o3600))
    (h : x.device.image = some img) (hr : start c scan x = .ok r) :
    r.device.image = some img := by
  rw [start] at hr
  split at hr
  · cases hr
  · rename_i hstate
    split at hr
    · obtain ⟨y, _, hr⟩ := EventRun.exists_of_bind hr
      rw [finish_image hr, h]
      rfl
    · rename_i hreg
      exact absurd (Or.inl (BitVec.eq_of_toNat_eq hreg)) (hread (not_not.mp hstate))
    · rename_i hreg
      exact absurd (Or.inr (BitVec.eq_of_toNat_eq hreg)) (hread (not_not.mp hstate))
    · cases hr

theorem control_image {a : IopInt} (hsafe : (ExpDevice.cdc c x.device).writesUnchecked a = false)
    (hro : c.mReadOnly = true) (h : x.device.image = some img) (hr : control c scan a x = .ok r) :
    r.device.image = some img := by
  rw [control] at hr
  obtain ⟨y, hclear, hr⟩ := EventRun.exists_of_bind hr
  have hy : y.device.image = x.device.image ∧ y.device.mRegA = x.device.mRegA ∧
      y.device.mState = x.device.mState := by
    rw [clearInt] at hclear
    split at hclear
    · rw [intStatusChanged_device hclear]
      exact ⟨rfl, rfl, rfl⟩
    · exact Except.ok.inj hclear ▸ ⟨rfl, rfl, rfl⟩
  obtain ⟨himage, hreg, hstate⟩ := hy
  dsimp only at hr
  split at hr
  · rename_i hstart
    refine start_image (fun harmed => ?_) ?_ hr
    · have hswitched : switched a x.device.mState = .getLowHeadSector := hstate ▸ harmed
      rw [ExpDevice.writesUnchecked, hro, hswitched, decide_eq_true hstart, ← hreg] at hsafe
      simpa using hsafe
    · exact himage.trans h
  · exact Except.ok.inj hr ▸ himage.trans h

theorem setRegC_image (w : IopInt) (d : IopExpDiskCDC9448) : (d.setRegC w).image = d.image := by
  rw [setRegC]
  split <;> rfl

theorem perform_image {a : Call} (hro : c.mReadOnly = true)
    (hsafe : ∀ w, a = .control w → (ExpDevice.cdc c x.device).writesUnchecked w = false)
    (h : x.device.image = some img) (hr : perform c scan a x = .ok (v, r)) :
    r.device.image = some img := by
  cases a with
  | setIntEnabled b => exact intStatusChanged_device (of_silent hr) ▸ h
  | control w => exact control_image (hsafe w rfl) hro h (of_silent hr)
  | getRegA | getRegB | getRegC => exact (Prod.mk.inj (Except.ok.inj hr)).2 ▸ h
  | setRegC w => exact Except.ok.inj (of_silent hr) ▸ (setRegC_image w x.device).trans h
  | setRegA w | setRegB w | tick =>
    obtain rfl := Except.ok.inj (of_silent hr)
    exact h

end IopExpDiskCDC9448

namespace IopExpTape

open PokedTapFile (Contents)

variable {scan : IopExpTape → Except Exn Bool} {x r : Plugged IopExpTape} {v : IopInt}
  {img : Option (List (BitVec 8))}

/-- The file of the tape in the device. -/
def Loaded (img : Option (List (BitVec 8))) (x : Plugged IopExpTape) : Prop :=
  Contents img x.device.mTapeImage

theorem onTape_loaded {α : Type} {m : Poked α} {a : α} (hm : m.Keeps (Contents img))
    (h : Loaded img x) (hr : onTape m x = .ok (a, r)) : Loaded img r :=
  onTape_eq hr ▸ hm x.device.mTapeImage h

theorem finalizeControl_loaded {status : IopInt} (h : Loaded img x)
    (hr : finalizeControl scan status x = .ok r) : Loaded img r := by
  rw [Loaded, intStatusChanged_device hr]
  exact h

theorem readForward_loaded (h : Loaded img x) (hr : readForward scan x = .ok r) :
    Loaded img r := by
  obtain ⟨⟨_, x₁⟩, hopen, hr⟩ := EventRun.exists_of_bind hr
  obtain ⟨words, _, hr⟩ := EventRun.exists_of_bind hr
  obtain ⟨⟨_, x₂⟩, htell, hr⟩ := EventRun.exists_of_bind hr
  obtain ⟨⟨data, x₃⟩, hread, hr⟩ := EventRun.exists_of_bind hr
  obtain ⟨⟨_, x₄⟩, hstate, hr⟩ := EventRun.exists_of_bind hr
  have h₁ := onTape_loaded PokedTapFile.reOpen_contents h hopen
  have h₂ := onTape_loaded PokedTapFile.tellg_contents h₁ htell
  have h₃ : Loaded img x₃ := onTape_loaded (PokedTapFile.read_contents _) h₂ hread
  refine finalizeControl_loaded (onTape_loaded PokedTapFile.getState_contents ?_ hstate) hr
  exact h₃

theorem rewind_loaded (h : Loaded img x) (hr : rewind scan x = .ok r) : Loaded img r := by
  obtain ⟨⟨_, x₁⟩, hopen, hr⟩ := EventRun.exists_of_bind hr
  obtain ⟨⟨_, x₂⟩, hseek, hr⟩ := EventRun.exists_of_bind hr
  obtain ⟨x₃, hfinish, hr⟩ := EventRun.exists_of_bind hr
  obtain ⟨⟨_, x₄⟩, hclose, hr⟩ := EventRun.exists_of_bind hr
  obtain rfl := Except.ok.inj hr
  have h₁ := onTape_loaded PokedTapFile.reOpen_contents h hopen
  have h₂ := onTape_loaded PokedTapFile.seekToBeginningOfTape_contents h₁ hseek
  exact onTape_loaded PokedTapFile.closeTape_contents (finalizeControl_loaded h₂ hfinish) hclose

theorem spaceRecords_loaded {seek : Poked Unit} (hseek : seek.Keeps (Contents img)) {n : Nat}
    (h : Loaded img x) (hr : spaceRecords scan seek n x = .ok r) : Loaded img r := by
  induction n generalizing x with
  | zero => exact Except.ok.inj hr ▸ h
  | succ n ih =>
    obtain ⟨⟨_, x₁⟩, hone, hr⟩ := EventRun.exists_of_bind hr
    obtain ⟨⟨_, x₂⟩, hstate, hr⟩ := EventRun.exists_of_bind hr
    have h₂ : Loaded img x₂ :=
      onTape_loaded PokedTapFile.getState_contents (onTape_loaded hseek h hone) hstate
    dsimp only at hr
    split at hr
    · exact finalizeControl_loaded h₂ hr
    · refine ih ?_ hr
      exact h₂

theorem space_loaded {seek : Poked Unit} (hseek : seek.Keeps (Contents img))
    (h : Loaded img x) (hr : space scan seek x = .ok r) : Loaded img r := by
  obtain ⟨⟨_, x₁⟩, hopen, hr⟩ := EventRun.exists_of_bind hr
  obtain ⟨records, _, hr⟩ := EventRun.exists_of_bind hr
  obtain ⟨⟨_, x₂⟩, htell, hr⟩ := EventRun.exists_of_bind hr
  obtain ⟨x₃, hloop, hr⟩ := EventRun.exists_of_bind hr
  have h₁ := onTape_loaded PokedTapFile.reOpen_contents h hopen
  have h₂ := onTape_loaded PokedTapFile.tellg_contents h₁ htell
  have h₃ := spaceRecords_loaded hseek h₂ hloop
  split at hr
  · exact finalizeControl_loaded h₃ hr
  · exact Except.ok.inj hr ▸ h₃

/-- A read-only tape only starts what does not write. -/
theorem start_loaded (h : Loaded img x) (hr : start true scan x = .ok r) : Loaded img r := by
  have hx : Loaded img { x with device := { x.device with mRegAStat := 0 } } := h
  rw [start] at hr
  dsimp only at hr
  split at hr
  · exact readForward_loaded hx hr
  · exact rewind_loaded hx hr
  · exact space_loaded PokedTapFile.seekToNextRecord_contents hx hr
  · exact space_loaded PokedTapFile.seekToPrevRecord_contents hx hr
  · cases hr
  · cases hr
  · cases hr

theorem control_loaded {a : IopInt} (h : Loaded img x) (hr : control true scan a x = .ok r) :
    Loaded img r := by
  rw [control] at hr
  split at hr
  · cases hr
  · obtain ⟨y, hclear, hr⟩ := EventRun.exists_of_bind hr
    have hy : Loaded img y := by
      rw [clearInt] at hclear
      split at hclear
      · rw [Loaded, intStatusChanged_device hclear]
        exact h
      · exact Except.ok.inj hclear ▸ h
    split at hr
    · exact start_loaded hy hr
    · exact Except.ok.inj hr ▸ hy

theorem perform_loaded {a : Call} (h : Loaded img x) (hr : perform true scan a x = .ok (v, r)) :
    Loaded img r := by
  cases a with
  | setIntEnabled b =>
    rw [Loaded, intStatusChanged_device (of_silent hr)]
    exact h
  | control w => exact control_loaded h (of_silent hr)
  | getRegA =>
    obtain ⟨⟨_, x₁⟩, hstate, hr⟩ := EventRun.exists_of_bind hr
    exact (Prod.mk.inj (Except.ok.inj hr)).2 ▸
      onTape_loaded PokedTapFile.getState_contents h hstate
  | getRegB | getRegC => exact (Prod.mk.inj (Except.ok.inj hr)).2 ▸ h
  | setRegA w | setRegB w | setRegC w | tick =>
    obtain rfl := Except.ok.inj (of_silent hr)
    exact h

end IopExpTape

/-! ## 4. The expander channel -/

namespace ExpDevice

variable {now : HostTime} {scan : ExpDevice → Except Exn Bool} {x r : Plugged ExpDevice}
  {v addr : IopInt} {img : List (BitVec 8)}

theorem within_image {D : Type} {wrap : D → ExpDevice} {d : D}
    {m : Plugged D → Except Exn (IopInt × Plugged D)}
    (hm : ∀ v r, m ⟨d, x.ioMemory, x.mDeviceInterruptPending⟩ = .ok (v, r) →
      (wrap r.device).readOnlyImage = some img)
    (hr : within wrap m x d = .ok (v, r)) : r.device.readOnlyImage = some img := by
  obtain ⟨w, y, hrun, rfl⟩ := of_within hr
  exact hm w y hrun

theorem perform_image {a : Call} (h : x.device.readOnlyImage = some img)
    (hsafe : ∀ w, a = .control w → x.device.writesUnchecked w = false)
    (hr : perform now scan addr a x = .ok (v, r)) : r.device.readOnlyImage = some img := by
  rw [perform] at hr
  split at hr
  case h_1 ro d hd =>
    rw [hd, readOnlyImage] at h
    cases ro with
    | false => cases h
    | true =>
      refine within_image (fun w y hy => ?_) hr
      have hloaded : IopExpTape.Loaded (some img) ⟨d, x.ioMemory, x.mDeviceInterruptPending⟩ := h
      exact IopExpTape.perform_loaded hloaded hy
  case h_2 c d hd =>
    rw [hd] at h hsafe
    rw [readOnlyImage] at h
    split at h
    · rename_i hro
      refine within_image (fun w y hy => ?_) hr
      rw [readOnlyImage, if_pos hro]
      exact IopExpDiskAmpexDM980.perform_image hro hsafe h hy
    · cases h
  case h_3 c d hd =>
    rw [hd] at h hsafe
    rw [readOnlyImage] at h
    split at h
    · rename_i hro
      refine within_image (fun w y hy => ?_) hr
      rw [readOnlyImage, if_pos hro]
      exact IopExpDiskCDC9448.perform_image hro hsafe h hy
    · cases h
  all_goals
    rename_i hd
    rw [hd] at h
    cases h

end ExpDevice

namespace IopChannelExp

variable {now : HostTime} {s s' : IopChannelExp} {v : IopInt} {img : List (BitVec 8)} {k : Nat}

/-- A call leaves the read-only file of device `k`, unless it is a control that writes to it. -/
theorem call_image {j : Nat} {addr : IopInt} {a : Call} (h : (s.device k).readOnlyImage = some img)
    (hsafe : ∀ w, a = .control w → (s.device j).writesUnchecked w = false)
    (hr : call now j addr a s = .ok (v, s')) : (s'.device k).readOnlyImage = some img := by
  obtain ⟨⟨w, y⟩, hperform, hr⟩ := EventRun.exists_of_bind hr
  obtain rfl := (Prod.mk.inj (Except.ok.inj hr)).2
  show (Function.update s.device j y.device k).readOnlyImage = some img
  by_cases hk : k = j
  · subst hk
    rw [Function.update_self]
    exact ExpDevice.perform_image h hsafe hperform
  · rw [Function.update_of_ne hk]
    exact h

/-- The control of an event does not write to a read-only disk. -/
def Checked (s : IopChannelExp) (e : Event) : Prop :=
  ∀ w now j, e = .doIo 0o17 w now → activeDevice s = .ok (some j) →
    (s.device j).writesUnchecked w = false

theorem step_image {e : Event} (h : (s.device k).readOnlyImage = some img) (hsafe : Checked s e)
    (hr : step e s = .ok s') : (s'.device k).readOnlyImage = some img := by
  have hdevices : OfDevices fun s => (s.device k).readOnlyImage = some img := by
    rintro s s' - hdevice - hs
    show (s'.device k).readOnlyImage = some img
    rw [hdevice]
    exact hs
  refine step_keeps hdevices ?_ ?_ h hr
  · intro now a ha j addr s v s' hs hcall
    exact call_image hs (fun w hw => absurd hw (ha w)) hcall
  · intro w now j v y he hactive hcall
    refine call_image h (fun w' hw => ?_) hcall
    obtain rfl := Call.control.inj hw
    exact hsafe w now j he hactive

end IopChannelExp

/-! ## 5. The block multiplexer channel -/

namespace IopBmxTape

open PokedTapFile

variable {img : Option (List (BitVec 8))}

/-- A write to a read-only tape fails in front of the image. -/
theorem write_contents (data : List (BitVec 8)) : (write true data).Keeps (Contents img) :=
  fun _ hs => hs

theorem spaceFile_contents {seek : Poked Unit} (hseek : seek.Keeps (Contents img)) (fuel : Nat) :
    (spaceFile seek fuel).Keeps (Contents img) := by
  induction fuel with
  | zero => exact Run.keeps_throw _
  | succ fuel ih =>
    exact hseek.bind fun _ => getState_contents.bind fun _ =>
      .ite (fun _ => Run.keeps_pure _) fun _ => ih

theorem motion_contents (fuel : Nat) (aCommand : BitVec 8) :
    (motion true fuel aCommand).Keeps (Contents img) := by
  have hreturn : ∀ f : TapState → BitVec 8,
      (getState >>= fun state => (pure (f state) : Poked (BitVec 8))).Keeps (Contents img) :=
    fun f => getState_contents.bind fun _ => Run.keeps_pure _
  rw [motion]
  dsimp only
  split
  · exact reOpen_contents.bind fun _ => seekToBeginningOfTape_contents.bind fun _ =>
      closeTape_contents.bind fun _ => Run.keeps_pure _
  · exact reOpen_contents.bind fun _ => seekToBeginningOfTape_contents.bind fun _ =>
      closeTape_contents.bind fun _ => hreturn _
  · exact Run.keeps_pure _
  · exact fun _ hs => hs
  · exact reOpen_contents.bind fun _ => seekToPrevRecord_contents.bind fun _ => hreturn _
  · exact reOpen_contents.bind fun _ =>
      (spaceFile_contents seekToPrevRecord_contents fuel).bind fun _ => hreturn _
  · exact reOpen_contents.bind fun _ => seekToNextRecord_contents.bind fun _ => hreturn _
  · exact reOpen_contents.bind fun _ =>
      (spaceFile_contents seekToNextRecord_contents fuel).bind fun _ => hreturn _

theorem control_contents (fuel : Nat) (aCommand : BitVec 8) :
    (control true fuel aCommand).Keeps (Contents img) :=
  .ite (fun _ => Run.Keeps.bind (Run.keeps_pure _) fun _ => Run.keeps_pure _) fun _ =>
    (motion_contents fuel aCommand).bind fun _ => Run.keeps_pure _

theorem read_contents (n : Nat) : (read n).Keeps (Contents img) :=
  reOpen_contents.bind fun _ => (PokedTapFile.read_contents _).bind fun _ =>
    getState_contents.bind fun _ => Run.keeps_pure _

theorem sense_contents (ro : Bool) (n : Nat) : (sense ro n).Keeps (Contents img) :=
  (pokedAssert_contents _).bind fun _ => Run.keeps_pure _

end IopBmxTape

namespace IopChannelBmx

open PokedTapFile (Contents)

variable {s s' : IopChannelBmx} {v : IopInt} {img : List (BitVec 8)} {k : Nat}

/-- The file of a tape of the channel, if it is read-only. -/
def readOnlyImage (s : IopChannelBmx) (k : Nat) : Option (List (BitVec 8)) :=
  (s.mDevices[k]?.join).bind IopBmxTape.readOnlyImage

variable {t : IopBmxTape}

theorem assertActive_eq (h : assertActive s = .ok t) :
    s.mDevices[s.mActiveDevice.toNat]? = some (some t) := by
  obtain ⟨o, hget, h⟩ := EventRun.exists_of_bind h
  rw [getActiveDevice] at hget
  split at hget
  · cases hget
  · split at hget
    · rename_i found heq
      obtain rfl : found = o := Except.ok.inj hget
      cases found with
      | none => cases h
      | some t' => exact Except.ok.inj h ▸ heq
    · cases hget

/-- A method of the active tape that keeps the file of a read-only one. -/
theorem onDevice_image {α : Type} {m : Poked α} {a : α}
    (hactive : s.mDevices[s.mActiveDevice.toNat]? = some (some t))
    (hm : t.mIsReadOnly = true → ∀ img, m.Keeps (Contents img))
    (h : readOnlyImage s k = some img) (hr : onDevice t m s = .ok (a, s')) :
    readOnlyImage s' k = some img := by
  rw [onDevice] at hr
  split at hr
  case h_2 => cases hr
  rename_i image heq
  obtain ⟨-, rfl⟩ := Prod.mk.inj (Except.ok.inj hr)
  rw [readOnlyImage] at h ⊢
  dsimp only
  by_cases hk : k = s.mActiveDevice.toNat
  · subst hk
    obtain ⟨hlt, -⟩ := List.getElem?_eq_some_iff.mp hactive
    rw [List.getElem?_set_self hlt]
    rw [hactive] at h
    change (if t.mIsReadOnly then t.mTapeImage.tape.stream.disk else none) = some img at h
    change (if t.mIsReadOnly then image.tape.stream.disk else none) = some img
    split at h
    · rename_i hro
      rw [if_pos hro]
      have hkept := hm hro (some img) t.mTapeImage h
      rw [heq] at hkept
      exact hkept
    · cases h
  · rw [List.getElem?_set_ne (Ne.symm hk)]
    exact h

theorem writeCommand_image {fuel : Nat} {command : BitVec 8}
    (hactive : s.mDevices[s.mActiveDevice.toNat]? = some (some t))
    (h : readOnlyImage s k = some img) (hr : writeCommand fuel command t s = .ok s') :
    readOnlyImage s' k = some img := by
  obtain ⟨⟨status, y⟩, hmethod, hr⟩ := EventRun.exists_of_bind hr
  obtain rfl := Except.ok.inj hr
  have himage : readOnlyImage y k = some img := by
    refine onDevice_image hactive (fun hro img => ?_) h hmethod
    rw [hro]
    split
    · exact IopBmxTape.write_contents _
    · exact IopBmxTape.control_contents fuel command
  exact himage

theorem readCommand_image {command : BitVec 8}
    (hactive : s.mDevices[s.mActiveDevice.toNat]? = some (some t))
    (h : readOnlyImage s k = some img) (hr : readCommand command t s = .ok s') :
    readOnlyImage s' k = some img := by
  obtain ⟨⟨⟨status, data⟩, y⟩, hmethod, hr⟩ := EventRun.exists_of_bind hr
  have hy : readOnlyImage y k = some img := by
    refine onDevice_image hactive (fun _ img => ?_) h hmethod
    split
    · exact IopBmxTape.read_contents _
    · split
      · exact IopBmxTape.sense_contents _ _
      · exact Run.keeps_throw _
  dsimp only at hr
  split at hr
  · cases hr
  · exact Except.ok.inj hr ▸ hy

theorem channelCommand_image {fuel : Nat} {aData : IopInt} (h : readOnlyImage s k = some img)
    (hr : channelCommand fuel aData s = .ok s') : readOnlyImage s' k = some img := by
  obtain ⟨t, hactive, hr⟩ := EventRun.exists_of_bind hr
  have ht := assertActive_eq hactive
  split at hr
  · exact Except.ok.inj hr ▸ h
  · split at hr
    · exact writeCommand_image ht h hr
    · split at hr
      · exact readCommand_image ht h hr
      · cases hr

/-- **A channel function** keeps the read-only tapes. -/
theorem doIo_image {fuel f : Nat} {aData : IopInt} (h : readOnlyImage s k = some img)
    (hr : doIo fuel f aData s = .ok (v, s')) : readOnlyImage s' k = some img := by
  rw [doIo.eq_def] at hr
  split at hr
  case h_2 =>
    split at hr
    · obtain ⟨_, _, hr⟩ := EventRun.exists_of_bind hr
      exact (Prod.mk.inj (Except.ok.inj hr)).2 ▸ h
    · obtain ⟨_, _, hr⟩ := EventRun.exists_of_bind hr
      exact (Prod.mk.inj (Except.ok.inj hr)).2 ▸ h
    · exact (Prod.mk.inj (Except.ok.inj hr)).2 ▸ h
  case h_3 =>
    obtain ⟨y, hcommand, hr⟩ := EventRun.exists_of_bind hr
    have hy := channelCommand_image h hcommand
    exact (Prod.mk.inj (Except.ok.inj hr)).2 ▸ hy
  case h_4 =>
    obtain rfl := (Prod.mk.inj (Except.ok.inj hr)).2
    rw [requestInAddress]
    split <;> exact h
  case h_5 => cases hr
  case h_10 | h_11 | h_12 =>
    split at hr <;> exact (Prod.mk.inj (Except.ok.inj hr)).2 ▸ h
  all_goals
    obtain rfl := (Prod.mk.inj (Except.ok.inj hr)).2
    exact h

theorem tick_image (h : readOnlyImage s k = some img) : readOnlyImage (tick s) k = some img := by
  rw [tick]
  split
  · exact h
  · split <;> exact h

end IopChannelBmx

/-! ## 6. Runs -/

/-- A channel with media. -/
inductive MediaChannel where
  | dd29 (c : IopDiskDD29.Config) (d : IopDiskDD29)
  | expander (s : IopChannelExp)
  | bmx (s : IopChannelBmx)

namespace MediaChannel

/-- What happens to a channel; the loop over the records of a file gets `fuel`. -/
inductive Event where
  | doIo (aFunction : Nat) (aData : IopInt) (now : HostTime) (fuel : Nat)
  | tick (now : HostTime)
  | masterClear
  | compute (ioMemory : IoMemory)

/-- The event, for an expander. -/
def Event.ofExpander : Event → IopChannelExp.Event
  | .doIo f aData now _ => .doIo f aData now
  | .tick now => .tick now
  | .masterClear => .masterClear
  | .compute mem => .compute mem

/-- One event. A disk channel has nothing to do on a tick. -/
def step : Event → MediaChannel → Except Exn MediaChannel
  | .doIo f aData _ _, .dd29 c d => (IopDiskDD29.doIo c f aData d).map fun r => .dd29 c r.2
  | .tick _, .dd29 c d => .ok (.dd29 c d)
  | .masterClear, .dd29 c d => .ok (.dd29 c d.masterClear)
  | .compute mem, .dd29 c d => .ok (.dd29 c { d with ioMemory := mem })
  | e, .expander s => (IopChannelExp.step e.ofExpander s).map .expander
  | .doIo f aData _ fuel, .bmx s => (IopChannelBmx.doIo fuel f aData s).map fun r => .bmx r.2
  | .tick _, .bmx s => .ok (.bmx s.tick)
  | .masterClear, .bmx s => .ok (.bmx s.masterClear)
  | .compute mem, .bmx s => .ok (.bmx { s with ioMemory := mem })

/-- The file of a medium of the channel, if it is configured read-only and has one. -/
def readOnlyImage : MediaChannel → Nat → Option (List (BitVec 8))
  | .dd29 c d, _ => IopDiskDD29.readOnlyImage c d
  | .expander s, k => (s.device k).readOnlyImage
  | .bmx s, k => s.readOnlyImage k

/-- The event is no control that writes to a read-only disk of an expander. -/
def Checked : MediaChannel → Event → Prop
  | .expander s, e => s.Checked e.ofExpander
  | _, _ => True

variable {ch ch' : MediaChannel} {img : List (BitVec 8)} {k : Nat}

theorem map_ok {α β : Type} {r : Except Exn α} {f : α → β} {b : β} (h : r.map f = .ok b) :
    ∃ a, r = .ok a ∧ f a = b := by
  cases r with
  | error e => cases h
  | ok a => exact ⟨a, rfl, Except.ok.inj h⟩

/-- **An event** that is no such control keeps the read-only files. -/
theorem step_image (e : Event) (h : readOnlyImage ch k = some img) (hsafe : Checked ch e)
    (hr : step e ch = .ok ch') : readOnlyImage ch' k = some img := by
  cases ch with
  | dd29 c d =>
    cases e with
    | doIo f aData now fuel =>
      obtain ⟨⟨v, d'⟩, hdo, rfl⟩ := map_ok hr
      rw [readOnlyImage, IopDiskDD29.readOnlyImage] at h ⊢
      split at h
      · rename_i hro
        rw [if_pos hro, IopDiskDD29.doIo_readOnly hro hdo]
        exact h
      · cases h
    | tick now | masterClear | compute mem => exact Except.ok.inj hr ▸ h
  | expander s =>
    have hstep : (IopChannelExp.step e.ofExpander s).map .expander = .ok ch' := by
      cases e <;> exact hr
    obtain ⟨s', hone, rfl⟩ := map_ok hstep
    exact IopChannelExp.step_image h hsafe hone
  | bmx s =>
    cases e with
    | doIo f aData now fuel =>
      obtain ⟨⟨v, s'⟩, hdo, rfl⟩ := map_ok hr
      exact IopChannelBmx.doIo_image h hdo
    | tick now => exact Except.ok.inj hr ▸ IopChannelBmx.tick_image h
    | masterClear | compute mem => exact Except.ok.inj hr ▸ h

/-- **Read-only media do not change**, along a run in which no control writes to a read-only disk
    of an expander. -/
theorem read_only_kept {es : List Event} (h : readOnlyImage ch k = some img)
    (hsafe : EventRun.Along step Checked es ch) (hr : EventRun.run step es ch = .ok ch') :
    readOnlyImage ch' k = some img :=
  EventRun.run_keeps (I := fun ch => readOnlyImage ch k = some img)
    (fun _ e _ hs hsafe hone => step_image e hs hsafe hone) h hsafe hr

/-! ## 7. A read-only Ampex disk -/

/-- One sector of two bytes. -/
def smallDisk (mReadOnly : Bool) : IopExpDisk.Config where
  mReadOnly := mReadOnly
  mNumHeads := 1
  mNumSectors := 1
  mNumTracks := 1
  mSectorSize := 2
  heads_pos := Nat.one_pos
  sectors_pos := Nat.one_pos
  tracks_pos := Nat.one_pos
  sectorSize_pos := Nat.two_pos
  sectorSize_lt := by decide

/-- An expander with this disk, read-only, at address 0. -/
def smallConfiguration (image : List (BitVec 8)) : IopChannelExp.Configuration where
  deviceCount := 1
  devices := [(1, .ampex 0 (smallDisk true) (some image))]
  useDummyDevices := false

/-- A run from there, with the same parcel everywhere in the memory. -/
def smallRun (es : List Event) : Except Exn MediaChannel :=
  (IopChannelExp.setup (smallConfiguration [7, 7]) false fun _ => 0x0102).bind fun s =>
    EventRun.run step es (.expander s)

/-- The function that starts a command. -/
def startEvent : Event := .doIo 0o17 controlStart ⟨1990, 1, 1, 0, 0, 0⟩ 0

/-- The functions in front of it: one sector, the buffer at 0, and the command. -/
def programEvents (command : IopInt) : List Event :=
  [(0o05, 0), (0o15, 1), (0o16, 3), (0o15, 0), (0o16, command)].map
    fun f => .doIo f.1 f.2 ⟨1990, 1, 1, 0, 0, 0⟩ 0

theorem checked_of_function {f : Nat} (hf : f ≠ 0o17) (aData : IopInt) (now : HostTime)
    (fuel : Nat) (ch : MediaChannel) : Checked ch (.doIo f aData now fuel) := by
  cases ch with
  | expander s =>
    intro w now' j he _
    exact absurd (IopChannelExp.Event.doIo.inj he).1 hf
  | dd29 c d => trivial
  | bmx s => trivial

/-- A START now would write to a read-only disk. -/
def startsUnchecked : MediaChannel → Bool
  | .expander s =>
    match s.activeDevice with
    | .ok (some j) => (s.device j).writesUnchecked controlStart
    | _ => false
  | _ => false

theorem checked_startEvent {ch : MediaChannel} (h : startsUnchecked ch = false) :
    Checked ch startEvent := by
  cases ch with
  | expander s =>
    intro w now j he hactive
    obtain ⟨-, rfl, -⟩ := IopChannelExp.Event.doIo.inj he
    rw [startsUnchecked, hactive] at h
    exact h
  | dd29 c d => trivial
  | bmx s => trivial

/-- A read of the disk. -/
theorem read_only_kept_read :
    ∃ ch', smallRun (programEvents 0o00 ++ [startEvent]) = .ok ch' ∧
      readOnlyImage ch' 0 = some [7, 7] := by
  have hends : (smallRun (programEvents 0o00 ++ [startEvent])).map (fun _ => ()) = .ok () := by
    decide
  have himage : (smallRun []).map (fun ch => readOnlyImage ch 0) = .ok (some [7, 7]) := by
    decide
  have hreads : (smallRun (programEvents 0o00)).map startsUnchecked = .ok false := by
    decide
  obtain ⟨ch', hrun, -⟩ := map_ok hends
  obtain ⟨s, hsetup, hrun'⟩ := EventRun.exists_of_bind hrun
  have hfrom : ∀ es, smallRun es = EventRun.run step es (.expander s) := by
    intro es
    rw [smallRun, hsetup]
    rfl
  have hquiet : EventRun.Along step Checked (programEvents 0o00) (.expander s) := by
    refine EventRun.along_of_mem (fun e he ch => ?_) _
    rw [programEvents, List.mem_map] at he
    obtain ⟨f, hf, rfl⟩ := he
    refine checked_of_function ?_ f.2 _ _ ch
    revert f
    decide
  have hsafe : EventRun.Along step Checked (programEvents 0o00 ++ [startEvent]) (.expander s) := by
    refine hquiet.concat fun ch hprogram => checked_startEvent ?_
    rw [hfrom, hprogram] at hreads
    exact Except.ok.inj hreads
  rw [hfrom] at himage
  exact ⟨ch', hrun, read_only_kept (Except.ok.inj himage) hsafe hrun'⟩

/-- **A write to the read-only disk changes its file.** -/
theorem read_only_written :
    (smallRun []).map (fun ch => readOnlyImage ch 0) = .ok (some [7, 7]) ∧
      (smallRun (programEvents 0o10 ++ [startEvent])).map (fun ch => readOnlyImage ch 0) =
        .ok (some [1, 2]) := by
  decide

end MediaChannel

end CraySim
