/-
  Subject:   The readings of the real time clock after it has been set.

  With the clock of the host a reading follows the host if that is far enough ahead of the last
  reading; otherwise it is the last reading and an increment. Setting the clock stores 0 as the
  last reading, not the value set: the first reading can then be the increment alone.

  * `updateRealTimeClock`, `readings` -- the updates, and the readings of a run,
  * `StepFits`, `RunFits` -- the readings that move the clock on,
  * `rising_of_fits`, `fits_of_rising` -- these are the ones, reading by reading,
  * `realTimeClock_rising` -- **after a set the readings start at its value and rise** where every
    reading fits, and with the clock of the host only there.
-/
import CraySim.VectorFloat

namespace CraySim

/-! ## 1. Runs of readings -/

namespace SysRun

variable {pm : Params}

def updateRealTimeClock : SysRun pm Unit :=
  Run.modify fun s =>
    if pm.useHostRealTimeClock then s
    else { s with mRealTimeClock := s.mRealTimeClock + pm.realTimeClockIncrement }

end SysRun

open SysRun

/-- What happens before a reading: time passes on the host, and the mainframe makes updates. -/
structure Passing where
  elapsed : Nat
  updates : Nat

section runs
variable {pm : Params}

/-- The clock after some updates. -/
def System.updated : Nat → System pm → System pm
  | 0, s => s
  | n + 1, s => (updateRealTimeClock (System.updated n s)).2

/-- The moment of a reading. -/
def System.later (s : System pm) (e : Passing) : System pm :=
  System.updated e.updates { s with mRealTimeTimer := s.mRealTimeTimer + e.elapsed }

/-- The value of a reading. -/
def clockReading (s : System pm) : CInt :=
  if pm.useHostRealTimeClock then
    if s.mLastRealTimeReading + pm.realTimeClockChunkLimit <
        s.mRealTimeClock + pm.deltaClocks (s.mRealTimeTimer - s.mRealTimeStart) then
      s.mRealTimeClock + pm.deltaClocks (s.mRealTimeTimer - s.mRealTimeStart)
    else s.mLastRealTimeReading + pm.realTimeClockIncrement
  else s.mRealTimeClock

/-- The machine after it. -/
def System.read (s : System pm) : System pm :=
  if pm.useHostRealTimeClock then { s with mLastRealTimeReading := clockReading s } else s

/-- **A reading in one equation.** -/
theorem getRealTimeClock_eq (s : System pm) :
    getRealTimeClock s = (.ok (clockReading s), s.read) := by
  unfold getRealTimeClock clockReading System.read clockReading
  rw [Run.bind_apply_ok (Run.get_apply s)]
  cases pm.useHostRealTimeClock with
  | false => rfl
  | true =>
    rw [if_pos rfl, if_pos rfl, if_pos rfl]
    dsimp only
    split
    · rfl
    · rfl

/-- The readings of a run, one after the other. -/
def readings : List Passing → System pm → List CInt
  | [], _ => []
  | e :: es, s =>
    match getRealTimeClock (s.later e) with
    | (.ok r, s') => r :: readings es s'
    | (.error _, _) => []

theorem readings_cons (e : Passing) (es : List Passing) (s : System pm) :
    readings (e :: es) s = clockReading (s.later e) :: readings es (s.later e).read := by
  rw [readings, getRealTimeClock_eq]

/-- What the next reading has to be above. -/
def lastReading (s : System pm) : CInt :=
  if pm.useHostRealTimeClock then s.mLastRealTimeReading else s.mRealTimeClock

theorem lastReading_read (s : System pm) : lastReading s.read = clockReading s := by
  unfold lastReading System.read clockReading
  split
  · rfl
  · rfl

theorem later_host (hhost : pm.useHostRealTimeClock = true) (s : System pm) (e : Passing) :
    s.later e = { s with mRealTimeTimer := s.mRealTimeTimer + e.elapsed } := by
  have hupdated : ∀ n (t : System pm), System.updated n t = t := by
    intro n t
    induction n with
    | zero => rfl
    | succ n ih =>
      rw [System.updated, ih, updateRealTimeClock, Run.modify_apply]
      exact if_pos hhost
  exact hupdated _ _

/-- The clock after updates that do not wrap around. -/
theorem toNat_updated (hhost : pm.useHostRealTimeClock = false) {n : Nat} {s : System pm}
    (h : s.mRealTimeClock.toNat + n * pm.realTimeClockIncrement.toNat < 2 ^ 64) :
    (System.updated n s).mRealTimeClock.toNat =
      s.mRealTimeClock.toNat + n * pm.realTimeClockIncrement.toNat := by
  induction n with
  | zero => simp [System.updated]
  | succ n ih =>
    rw [Nat.succ_mul] at h ⊢
    have hn := ih (by omega)
    have hstep : (System.updated (n + 1) s).mRealTimeClock =
        (System.updated n s).mRealTimeClock + pm.realTimeClockIncrement := by
      rw [System.updated, updateRealTimeClock, Run.modify_apply, hhost]
      rfl
    rw [hstep, BitVec.toNat_add, hn, Nat.mod_eq_of_lt (by omega)]
    omega

end runs

/-! ## 2. Readings that fit -/

section fits
variable {pm : Params}

/-- With the clock of the host: a reading that follows the host is above the one before, the first
    one after a set of `V` without wrapping around; one that adds the increment does not wrap
    around, and the first one reaches `V` by the increment alone. -/
def HostFits (V : CInt) (first : Bool) (s : System pm) : Prop :=
  if s.mLastRealTimeReading + pm.realTimeClockChunkLimit <
      s.mRealTimeClock + pm.deltaClocks (s.mRealTimeTimer - s.mRealTimeStart) then
    if first then
      V.toNat + (pm.deltaClocks (s.mRealTimeTimer - s.mRealTimeStart)).toNat < 2 ^ 64
    else s.mLastRealTimeReading <
      s.mRealTimeClock + pm.deltaClocks (s.mRealTimeTimer - s.mRealTimeStart)
  else
    if first then V ≤ pm.realTimeClockIncrement
    else pm.realTimeClockIncrement ≠ 0 ∧
      s.mLastRealTimeReading.toNat + pm.realTimeClockIncrement.toNat < 2 ^ 64

/-- Without it: the updates do not wrap around, and there are some between two readings. -/
def UpdatesFit (pm : Params) (first : Bool) (e : Passing) (clock : CInt) : Prop :=
  clock.toNat + e.updates * pm.realTimeClockIncrement.toNat < 2 ^ 64 ∧
    (first = false → 0 < e.updates * pm.realTimeClockIncrement.toNat)

/-- The condition on a reading, in the state before it. -/
def StepFits (V : CInt) (first : Bool) (e : Passing) (s : System pm) : Prop :=
  if pm.useHostRealTimeClock then HostFits V first (s.later e)
  else UpdatesFit pm first e s.mRealTimeClock

/-- Every reading of a run meets it. -/
def RunFits (V : CInt) : Bool → List Passing → System pm → Prop
  | _, [], _ => True
  | first, e :: es, s => StepFits V first e s ∧ RunFits V false es (s.later e).read

/-- The readings start at `V` and rise. -/
def Rising (V : CInt) (rs : List CInt) : Prop := (∀ r ∈ rs, V ≤ r) ∧ rs.Pairwise (· < ·)

variable {V : CInt} {s : System pm} {e : Passing}

/-- With the clock of the host a later reading rises exactly where it fits. -/
theorem hostFits_later_iff (hhost : pm.useHostRealTimeClock = true) :
    HostFits V false s ↔ s.mLastRealTimeReading < clockReading s := by
  rw [HostFits, clockReading, if_pos hhost]
  split
  · exact Iff.rfl
  · rw [if_neg (by decide), BitVec.lt_def, BitVec.toNat_add, ne_eq, ← BitVec.toNat_inj]
    have hinc := pm.realTimeClockIncrement.isLt
    have hlast := s.mLastRealTimeReading.isLt
    rw [show (0 : CInt).toNat = 0 from rfl]
    omega

/-- The first one reaches the value set exactly where it fits. -/
theorem hostFits_first_iff (hhost : pm.useHostRealTimeClock = true)
    (hclock : s.mRealTimeClock = V) (hlast : s.mLastRealTimeReading = 0) :
    HostFits V true s ↔ V ≤ clockReading s := by
  rw [HostFits, clockReading, if_pos hhost, hclock, hlast]
  split
  · rw [if_pos rfl, BitVec.le_def, BitVec.toNat_add]
    have hV := V.isLt
    have hdelta := (pm.deltaClocks (s.mRealTimeTimer - s.mRealTimeStart)).isLt
    omega
  · rw [if_pos rfl, show (0 : CInt) + pm.realTimeClockIncrement = pm.realTimeClockIncrement from
      BitVec.zero_add _]

theorem stepFits_later_iff (hhost : pm.useHostRealTimeClock = true) :
    StepFits V false e s ↔ lastReading s < clockReading (s.later e) := by
  rw [StepFits, if_pos hhost, hostFits_later_iff hhost, lastReading, if_pos hhost, later_host hhost]

theorem stepFits_first_iff (hhost : pm.useHostRealTimeClock = true) (hclock : s.mRealTimeClock = V)
    (hlast : s.mLastRealTimeReading = 0) :
    StepFits V true e s ↔ V ≤ clockReading (s.later e) := by
  rw [StepFits, if_pos hhost, later_host hhost]
  exact hostFits_first_iff (s := { s with mRealTimeTimer := s.mRealTimeTimer + e.elapsed }) hhost
    hclock hlast

/-- Without the clock of the host a reading is the clock after the updates. -/
theorem clockReading_updates {first : Bool}
    (hhost : pm.useHostRealTimeClock = false) (h : StepFits V first e s) :
    (clockReading (s.later e)).toNat =
        s.mRealTimeClock.toNat + e.updates * pm.realTimeClockIncrement.toNat ∧
      (first = false → 0 < e.updates * pm.realTimeClockIncrement.toNat) := by
  rw [StepFits, if_neg (by rw [hhost]; decide)] at h
  rw [clockReading, hhost]
  exact ⟨toNat_updated hhost
    (s := { s with mRealTimeTimer := s.mRealTimeTimer + e.elapsed }) h.1, h.2⟩

/-- **A later reading that fits rises.** -/
theorem lastReading_lt_of_fits
    (h : StepFits V false e s) : lastReading s < clockReading (s.later e) := by
  cases hhost : pm.useHostRealTimeClock with
  | true => exact (stepFits_later_iff hhost).mp h
  | false =>
    obtain ⟨hreading, hpos⟩ := clockReading_updates hhost h
    have hpos := hpos rfl
    rw [lastReading, if_neg (by rw [hhost]; decide), BitVec.lt_def, hreading]
    omega

/-- **The first reading that fits reaches the value set.** -/
theorem le_clockReading_of_fits (hclock : s.mRealTimeClock = V)
    (hlast : pm.useHostRealTimeClock = true → s.mLastRealTimeReading = 0)
    (h : StepFits V true e s) : V ≤ clockReading (s.later e) := by
  cases hhost : pm.useHostRealTimeClock with
  | true => exact (stepFits_first_iff hhost hclock (hlast hhost)).mp h
  | false =>
    rw [BitVec.le_def, (clockReading_updates hhost h).1, hclock]
    omega

/-- The readings of a run that fits rise above the one before it. -/
theorem rising_of_fits {es : List Passing} (h : RunFits V false es s) :
    (∀ r ∈ readings es s, lastReading s < r) ∧ (readings es s).Pairwise (· < ·) := by
  induction es generalizing s with
  | nil => exact ⟨fun r hr => absurd hr List.not_mem_nil, List.Pairwise.nil⟩
  | cons e es ih =>
    obtain ⟨hstep, hrest⟩ := h
    obtain ⟨habove, hpair⟩ := ih hrest
    rw [lastReading_read] at habove
    have hlt := lastReading_lt_of_fits hstep
    rw [readings_cons]
    refine ⟨fun r hr => ?_, List.pairwise_cons.mpr ⟨habove, hpair⟩⟩
    obtain rfl | hr := List.mem_cons.mp hr
    · exact hlt
    · exact BitVec.lt_trans hlt (habove r hr)

/-- With the clock of the host, readings that rise fit. -/
theorem fits_of_rising {es : List Passing}
    (hhost : pm.useHostRealTimeClock = true) (habove : ∀ r ∈ readings es s, lastReading s < r)
    (hpair : (readings es s).Pairwise (· < ·)) : RunFits V false es s := by
  induction es generalizing s with
  | nil => trivial
  | cons e es ih =>
    rw [readings_cons] at habove hpair
    obtain ⟨hfirst, hpair⟩ := List.pairwise_cons.mp hpair
    refine ⟨?_, ih (by rw [lastReading_read]; exact hfirst) hpair⟩
    exact (stepFits_later_iff hhost).mpr (habove _ List.mem_cons_self)

end fits

/-- **The readings after a set**: they start at the value set and rise where every one of them
    fits; with the clock of the host only there. -/
theorem realTimeClock_rising {pm : Params} (s : System pm) (V : CInt) (es : List Passing) :
    (RunFits V true es (setRealTimeClock V s).2 →
      Rising V (readings es (setRealTimeClock V s).2)) ∧
    (pm.useHostRealTimeClock = true → Rising V (readings es (setRealTimeClock V s).2) →
      RunFits V true es (setRealTimeClock V s).2) := by
  have hclock : (setRealTimeClock V s).2.mRealTimeClock = V := by
    rw [setRealTimeClock, Run.modify_apply]
    split
    · rfl
    · rfl
  have hlast : pm.useHostRealTimeClock = true →
      (setRealTimeClock V s).2.mLastRealTimeReading = 0 := by
    intro hhost
    rw [setRealTimeClock, Run.modify_apply]
    dsimp only
    rw [if_pos hhost]
  generalize (setRealTimeClock V s).2 = t at hclock hlast
  cases es with
  | nil => exact ⟨fun _ => ⟨fun r hr => absurd hr List.not_mem_nil, List.Pairwise.nil⟩,
      fun _ _ => trivial⟩
  | cons e es =>
    rw [readings_cons]
    refine ⟨fun ⟨hstep, hrest⟩ => ?_, fun hhost ⟨hV, hpair⟩ => ?_⟩
    · have hfirst := le_clockReading_of_fits hclock hlast hstep
      obtain ⟨habove, hpair⟩ := rising_of_fits hrest
      rw [lastReading_read] at habove
      refine ⟨fun r hr => ?_, List.pairwise_cons.mpr ⟨habove, hpair⟩⟩
      obtain rfl | hr := List.mem_cons.mp hr
      · exact hfirst
      · exact BitVec.le_trans hfirst (BitVec.le_of_lt (habove r hr))
    · obtain ⟨hfirst, hpair⟩ := List.pairwise_cons.mp hpair
      refine ⟨?_, fits_of_rising hhost (by rw [lastReading_read]; exact hfirst) hpair⟩
      exact (stepFits_first_iff hhost hclock (hlast hhost)).mpr (hV _ List.mem_cons_self)

/-- The clock set to 5, read twice at once. -/
theorem realTimeClock_rising_five :
    Rising 5 (readings [⟨0, 0⟩, ⟨0, 0⟩] (setRealTimeClock 5 (System.powerOn ymp1)).2) :=
  (realTimeClock_rising (System.powerOn ymp1) 5 [⟨0, 0⟩, ⟨0, 0⟩]).1 (by
    simp only [RunFits, StepFits, HostFits, UpdatesFit]
    decide)

/-- The clock set to 100 and read at once shows 10, with the default configuration. -/
theorem not_realTimeClock_rising :
    ¬ ∀ {pm : Params} (s : System pm) (V : CInt) (es : List Passing),
      pm.useHostRealTimeClock = true → Rising V (readings es (setRealTimeClock V s).2) := by
  intro hall
  have h := (hall (System.powerOn ymp1) 100 [⟨0, 0⟩] rfl).1 10 (by decide)
  revert h
  decide

end CraySim
