/-
  Subject:   From the bits of a scan to the lengths of its runs, and back.

  `MakeRuns` and `DetermineBitLength` of `disk_decode.cpp`. The lengths are kept in bytes, and
  counted in two histograms, one for each level; the bit time is read off the histograms.

  * `RunState`, `RunState.change`, `makeRunsLoop` -- the loop,
  * `maxLoc`, `determineBitLength` -- the bit time,
  * `makeRuns` -- both,
  * `feed_built`, `feed_tallied` -- what the loop collects,
  * `determineBitLength_ok_iff` -- the histograms that have a bit time,
  * `lossless_iff` -- the scans that can be had back.

  The double that is computed from the samples around the maximum is left out, and so are
  `MaxPulseLength`, which is there for the printing, and `NoisyPulseLength`, which is not used.
-/
import CraySim.DiskBitStream
import CraySim.Types

namespace CraySim

namespace DiskDecode

/-! ## 1. The loop -/

/-- The variables of `MakeRuns`. -/
structure RunState where
  Runs : List (BitVec 8)
  RunTimes : List Nat
  BitTime : Nat
  PulseLength : Nat
  PulseLengthHistogram0 : List (BitVec 32)
  PulseLengthHistogram1 : List (BitVec 32)
  deriving DecidableEq, Repr

namespace RunState

/-- The variables in the beginning. -/
def start : RunState where
  Runs := []
  RunTimes := []
  BitTime := 0
  PulseLength := 0
  PulseLengthHistogram0 := List.replicate 256 0
  PulseLengthHistogram1 := List.replicate 256 0

/-- `Runs.push_back(run)`, with the run-time. -/
def add (s : RunState) (run : Nat) : RunState :=
  { s with
    Runs := s.Runs ++ [BitVec.ofNat 8 run]
    BitTime := s.BitTime + run
    RunTimes := s.RunTimes ++ [s.BitTime + run] }

/-- `PulseLengthHistogram[PulseLength]++`, for the level of the bit. -/
def count (s : RunState) (lastBit : Bit) (pulseLength : Nat) : RunState :=
  if lastBit = .Zero then
    { s with PulseLengthHistogram0 := s.PulseLengthHistogram0.modify pulseLength (· + 1) }
  else { s with PulseLengthHistogram1 := s.PulseLengthHistogram1.modify pulseLength (· + 1) }

/-- The bits change: a run has ended. The runs start with a run of zeros. -/
def change (s : RunState) (lastBit : Bit) : RunState :=
  let s := if s.Runs.length = 0 ∧ lastBit ≠ .Zero then s.add 100 else s
  let s := s.add s.PulseLength
  let pulseLength := if s.PulseLengthHistogram0.length ≤ s.PulseLength then
    s.PulseLengthHistogram0.length - 1 else s.PulseLength
  { s.count lastBit pulseLength with PulseLength := 0 }

/-- `++PulseLength`. -/
def pulse (s : RunState) : RunState := { s with PulseLength := s.PulseLength + 1 }

end RunState

/-- The loop of `MakeRuns`, for a number of rounds. -/
def makeRunsLoop : Nat → BitStream → Bit → RunState → Option RunState
  | 0, _, _, _ => none
  | fuel + 1, aBitStream, currentBit, s =>
    if currentBit = .Undef then some s
    else
      makeRunsLoop fuel aBitStream.popBit.2 aBitStream.popBit.1
        (if currentBit ≠ aBitStream.popBit.1 then s.pulse.change currentBit else s.pulse)

/-! ## 2. The bit time -/

/-- The loop of `DetermineBitLength` over the counts from index `i` on. -/
def maxLocFrom : Nat → Nat → Nat → List (BitVec 32) → Nat
  | _, _, maxLoc, [] => maxLoc
  | i, maxVal, maxLoc, cnt :: rest =>
    if maxVal < cnt.toNat then maxLocFrom (i + 1) cnt.toNat i rest
    else if maxLoc ≠ 0 then maxLoc
    else maxLocFrom (i + 1) maxVal maxLoc rest

/-- `MaxLoc`: the first big maximum. -/
def maxLoc (aPulseLengthHistogram : List (BitVec 32)) : Nat :=
  maxLocFrom 0 10000 0 aPulseLengthHistogram

/-- The samples the bit length is computed from. -/
structure BitLength where
  maxLoc : Nat
  below : BitVec 32
  top : BitVec 32
  above : BitVec 32
  deriving DecidableEq, Repr

/-- `DetermineBitLength`. The histogram has no entry in front of the first one, which is looked at
    where there is no maximum, and none behind the last one. -/
def determineBitLength (aPulseLengthHistogram : List (BitVec 32)) : Except Exn BitLength :=
  match maxLoc aPulseLengthHistogram with
  | 0 => .error .undefinedBehaviour
  | below + 1 =>
    match aPulseLengthHistogram[below]?, aPulseLengthHistogram[below + 1]?,
      aPulseLengthHistogram[below + 2]? with
    | some a, some b, some c => .ok ⟨below + 1, a, b, c⟩
    | _, _, _ => .error .undefinedBehaviour

/-- What `MakeRuns` returns: the runs, the run-times, and what the bit time is made of. -/
structure MadeRuns where
  Runs : List (BitVec 8)
  RunTimes : List Nat
  BitLength0 : BitLength
  BitLength1 : BitLength
  deriving DecidableEq, Repr

/-- What comes after the loop. -/
def RunState.finish (s : RunState) : Except Exn MadeRuns := do
  let bitLength0 ← determineBitLength s.PulseLengthHistogram0
  let bitLength1 ← determineBitLength s.PulseLengthHistogram1
  return ⟨s.Runs, s.RunTimes, bitLength0, bitLength1⟩

/-- `MakeRuns`, for a number of rounds of its loop. -/
def makeRuns (fuel : Nat) (aBitStream : BitStream) : Option (Except Exn MadeRuns) :=
  (makeRunsLoop fuel aBitStream.popBit.2 aBitStream.popBit.1 .start).map RunState.finish

/-! ## 3. Runs of bits -/

/-- The runs of some bits behind `cnt + 1` bits of a level. -/
def runsFrom (level : Bool) (cnt : Nat) : List Bool → List (Bool × Nat)
  | [] => [(level, cnt + 1)]
  | b :: bits =>
    if b = level then runsFrom level (cnt + 1) bits else (level, cnt + 1) :: runsFrom b 0 bits

/-- The runs of a list of bits: their levels and lengths. -/
def runsOf : List Bool → List (Bool × Nat)
  | [] => []
  | b :: bits => runsFrom b 0 bits

/-- The bits of runs whose levels alternate. -/
def expand (level : Bool) : List Nat → List Bool
  | [] => []
  | run :: runs => List.replicate run level ++ expand (!level) runs

theorem expand_runsFrom (bits : List Bool) : ∀ (level : Bool) (cnt : Nat),
    expand level ((runsFrom level cnt bits).map Prod.snd) =
      List.replicate (cnt + 1) level ++ bits := by
  induction bits with
  | nil => exact fun level cnt => rfl
  | cons b bits ih =>
    intro level cnt
    rw [runsFrom]
    by_cases hb : b = level
    · subst hb
      rw [if_pos rfl, ih, List.replicate_succ' (n := cnt + 1), List.append_assoc]
      rfl
    · obtain rfl : b = !level := by cases b <;> cases level <;> simp_all
      rw [if_neg hb, List.map_cons, expand, ih]
      rfl

/-- The run that is inserted in front of a scan that begins with a one. -/
def leading : List Bool → List Nat
  | true :: _ => [100]
  | _ => []

/-- The lengths of the runs that are put down. -/
def lengths (bits : List Bool) : List Nat := leading bits ++ (runsOf bits).map Prod.snd

theorem expand_runsOf (bits : List Bool) :
    expand false (lengths bits) = expand false (leading bits) ++ bits := by
  match bits with
  | [] => rfl
  | false :: bits => exact expand_runsFrom bits false 0
  | true :: bits =>
    show List.replicate 100 false ++ expand true ((runsFrom true 0 bits).map Prod.snd) = _
    rw [expand_runsFrom]
    rfl

theorem length_expand (runs : List Nat) : ∀ level, (expand level runs).length = runs.sum := by
  induction runs with
  | nil => exact fun _ => rfl
  | cons run runs ih =>
    intro level
    rw [expand, List.length_append, List.length_replicate, ih, List.sum_cons]

/-! ## 4. What the loop reads -/

/-- The bits that are still to be read: those of a last, full byte are not. -/
def readable (bits : List Bool) (cnt : Nat) : List Bool :=
  (bits.take (if 8 ∣ bits.length then bits.length - 8 else bits.length)).drop cnt

variable {bits : List Bool} {runs : List Nat} {s : RunState}

theorem readable_eq_nil {cnt : Nat} (h : AtEnd bits.length cnt) :
    readable bits cnt = [] := by
  rw [readable, List.drop_eq_nil_iff, List.length_take]
  rw [AtEnd] at h
  split <;> omega

theorem readable_eq_cons {cnt : Nat} (hle : cnt ≤ bits.length) (h : ¬ AtEnd bits.length cnt) :
    readable bits cnt = bits.getD cnt false :: readable bits (cnt + 1) := by
  rw [AtEnd] at h
  have hlt : cnt < (bits.take
      (if 8 ∣ bits.length then bits.length - 8 else bits.length)).length := by
    rw [List.length_take]
    split <;> omega
  rw [readable, List.drop_eq_getElem_cons hlt, List.getElem_take,
    List.getD_eq_getElem _ _ (by omega)]
  rfl

/-- All bits are read where the last byte is not full, and where there are none. -/
theorem readable_eq_iff {cnt : Nat} (hle : cnt ≤ bits.length) :
    readable bits cnt = bits.drop cnt ↔ ¬ (8 ∣ bits.length ∧ cnt < bits.length) := by
  constructor
  · rintro heq ⟨hdvd, hlt⟩
    have hlength := congrArg List.length heq
    rw [readable, if_pos hdvd, List.length_drop, List.length_take, List.length_drop] at hlength
    omega
  · intro h
    rw [readable]
    split
    · have hnil : bits.drop cnt = [] := List.drop_eq_nil_of_le (by omega)
      rw [hnil, List.drop_eq_nil_iff, List.length_take]
      omega
    · rw [List.take_length]

/-- The rounds of the loop behind a bit, for the bits that follow. -/
def feed (b : Bool) : List Bool → RunState → RunState
  | [], s => s.pulse.change (Bit.ofBool b)
  | c :: bits, s => feed c bits (if b ≠ c then s.pulse.change (Bit.ofBool b) else s.pulse)

theorem ofBool_ne_undef (b : Bool) : Bit.ofBool b ≠ .Undef := by
  cases b <;> exact Bit.noConfusion

theorem ofBool_ne_iff (b c : Bool) : Bit.ofBool b ≠ Bit.ofBool c ↔ b ≠ c := by
  cases b <;> cases c <;> decide

theorem makeRunsLoop_undef (fuel : Nat) (strm : BitStream) (s : RunState) :
    makeRunsLoop fuel strm .Undef s = if 1 ≤ fuel then some s else none := by
  cases fuel with
  | zero => rfl
  | succ fuel => rw [makeRunsLoop, if_pos rfl, if_pos (Nat.le_add_left 1 fuel)]

/-- **The loop is fed the bits that are read, and needs two rounds more than there are.** -/
theorem makeRunsLoop_eq (fuel : Nat) : ∀ {strm : BitStream} {cnt : Nat}
    {b : Bool} {s : RunState}, Holds strm bits cnt →
      makeRunsLoop fuel strm (Bit.ofBool b) s =
        if (readable bits cnt).length + 2 ≤ fuel then some (feed b (readable bits cnt) s)
        else none := by
  induction fuel with
  | zero => exact fun _ => rfl
  | succ fuel ih =>
    intro strm cnt b s h
    rw [makeRunsLoop, if_neg (ofBool_ne_undef b)]
    by_cases hend : AtEnd bits.length cnt
    · rw [h.pop_end hend, makeRunsLoop_undef, readable_eq_nil hend, feed,
        if_pos (ofBool_ne_undef b)]
      simp
    · obtain ⟨hbit, hnext⟩ := h.pop hend
      rw [hbit, ih hnext, readable_eq_cons h.le hend, feed, List.length_cons]
      have hfuel : (readable bits (cnt + 1)).length + 1 + 2 ≤ fuel + 1 ↔
          (readable bits (cnt + 1)).length + 2 ≤ fuel := by omega
      simp only [ofBool_ne_iff, hfuel]

/-- The variables behind the loop, for the bits that are read. -/
def collected : List Bool → RunState
  | [] => .start
  | b :: bits => feed b bits .start

theorem makeRuns_eq {strm : BitStream} {cnt : Nat} (h : Holds strm bits cnt) (fuel : Nat) :
    makeRuns fuel strm = if (readable bits cnt).length + 1 ≤ fuel then
      some (collected (readable bits cnt)).finish else none := by
  rw [makeRuns]
  by_cases hend : AtEnd bits.length cnt
  · rw [h.pop_end hend, makeRunsLoop_undef, readable_eq_nil hend]
    cases fuel <;> rfl
  · obtain ⟨hbit, hnext⟩ := h.pop hend
    rw [hbit, makeRunsLoop_eq fuel hnext, readable_eq_cons h.le hend, List.length_cons]
    split <;> rfl

/-! ## 5. What the loop collects -/

/-- The sums of some numbers up to each of them. -/
def partialSums (runs : List Nat) : List Nat :=
  (List.range runs.length).map fun i => (runs.take (i + 1)).sum

theorem partialSums_append (runs : List Nat) (run : Nat) :
    partialSums (runs ++ [run]) = partialSums runs ++ [runs.sum + run] := by
  rw [partialSums, List.length_append, List.length_singleton, List.range_succ, List.map_append,
    List.map_singleton, List.take_of_length_le (by simp), List.sum_append, List.sum_singleton]
  refine congrArg (· ++ _) (List.map_congr_left fun i hi => ?_)
  rw [List.mem_range] at hi
  rw [List.take_append_of_le_length hi]

/-- The variables for some runs. -/
structure Built (s : RunState) (runs : List Nat) : Prop where
  bytes : s.Runs = runs.map (BitVec.ofNat 8)
  times : s.RunTimes = partialSums runs
  time : s.BitTime = runs.sum

theorem built_start : Built .start [] := ⟨rfl, rfl, rfl⟩

theorem Built.add (h : Built s runs) (run : Nat) :
    Built (s.add run) (runs ++ [run]) where
  bytes := by rw [RunState.add, h.bytes, List.map_append]; rfl
  times := by rw [RunState.add, h.times, h.time, partialSums_append]
  time := by rw [RunState.add, h.time, List.sum_append, List.sum_singleton]

/-- The run in front of the first one. -/
def inserted (runs : List Nat) (b : Bool) : List Nat := if runs = [] ∧ b = true then [100] else []

theorem Built.change (h : Built s runs) (b : Bool) :
    Built (s.change (Bit.ofBool b)) (runs ++ (inserted runs b ++ [s.PulseLength])) ∧
      (s.change (Bit.ofBool b)).PulseLength = 0 := by
  have hcount : ∀ (s : RunState) (bit : Bit) (k : Nat) {runs : List Nat}, Built s runs →
      Built { s.count bit k with PulseLength := 0 } runs := by
    intro s bit k runs h
    rw [RunState.count]
    split <;> exact ⟨h.bytes, h.times, h.time⟩
  have hfirst : s.Runs.length = 0 ∧ Bit.ofBool b ≠ .Zero ↔ runs = [] ∧ b = true := by
    rw [h.bytes, List.length_map, List.length_eq_zero_iff]
    cases b <;> simp
  refine ⟨?_, rfl⟩
  rw [RunState.change, inserted]
  by_cases hnone : runs = [] ∧ b = true
  · rw [if_pos (hfirst.mpr hnone), if_pos hnone, ← List.append_assoc]
    exact hcount _ _ _ ((h.add 100).add s.PulseLength)
  · rw [if_neg (mt hfirst.mp hnone), if_neg hnone]
    exact hcount _ _ _ (h.add s.PulseLength)

/-- **The loop collects the runs, with one in front where the first bit is a one.** -/
theorem feed_built (bits : List Bool) : ∀ {b : Bool} {s : RunState} {runs : List Nat},
    Built s runs →
      Built (feed b bits s)
        (runs ++ (inserted runs b ++ (runsFrom b s.PulseLength bits).map Prod.snd)) := by
  induction bits with
  | nil =>
    intro b s runs h
    exact (Built.change (s := s.pulse) ⟨h.bytes, h.times, h.time⟩ b).1
  | cons c bits ih =>
    intro b s runs h
    have hpulse : Built s.pulse runs := ⟨h.bytes, h.times, h.time⟩
    rw [feed, runsFrom]
    by_cases hbc : b = c
    · subst hbc
      rw [if_neg (not_not.mpr rfl), if_pos rfl]
      exact ih hpulse
    · obtain ⟨hchange, hzero⟩ := hpulse.change b
      have hrest := ih (b := c) hchange
      rw [hzero] at hrest
      have hno : inserted (runs ++ (inserted runs b ++ [s.pulse.PulseLength])) c = [] := by
        simp [inserted]
      rw [hno, List.nil_append, List.append_assoc, List.append_assoc] at hrest
      rw [if_pos hbc, if_neg (Ne.symm hbc)]
      exact hrest

theorem collected_built (bits : List Bool) : Built (collected bits) (lengths bits) := by
  match bits with
  | [] => exact built_start
  | false :: bits => exact feed_built bits built_start
  | true :: bits =>
    have hfed := feed_built bits (b := true) built_start
    rwa [inserted, if_pos ⟨rfl, rfl⟩] at hfed

/-! ## 6. What the loop counts -/

/-- The histogram of a level. -/
def RunState.hist (s : RunState) : Bool → List (BitVec 32)
  | false => s.PulseLengthHistogram0
  | true => s.PulseLengthHistogram1

/-- How many runs of a level have a length; lengths from 255 on are counted together. -/
def countOf (level : Bool) (runs : List (Bool × Nat)) (k : Nat) : Nat :=
  runs.countP fun run => decide (run.1 = level ∧ min run.2 255 = k)

/-- The histograms are those of some runs. -/
def Tallied (s : RunState) (runs : List (Bool × Nat)) : Prop :=
  ∀ level, (s.hist level).length = 256 ∧
    ∀ k < 256, (s.hist level).getD k 0 = BitVec.ofNat 32 (countOf level runs k)

theorem tallied_start : Tallied .start [] := by
  intro level
  have hhist : RunState.start.hist level = List.replicate 256 0 := by cases level <;> rfl
  rw [hhist]
  refine ⟨List.length_replicate, fun k hk => ?_⟩
  rw [List.getD_eq_getElem _ _ (by rwa [List.length_replicate]), List.getElem_replicate]
  rfl

/-- What the end of a run does to the histograms. -/
theorem hist_change (h : (s.hist false).length = 256) (b level : Bool) :
    (s.change (Bit.ofBool b)).hist level =
      if b = level then (s.hist level).modify (min s.PulseLength 255) (· + 1)
      else s.hist level := by
  have hmin : (if 256 ≤ s.PulseLength then 256 - 1 else s.PulseLength) = min s.PulseLength 255 := by
    split <;> omega
  have h' : s.PulseLengthHistogram0.length = 256 := h
  rw [← hmin, RunState.change]
  split <;> simp only [RunState.add, h'] <;> cases b <;> cases level <;> rfl

theorem getD_modify (l : List (BitVec 32)) (j k : Nat) (hk : k < l.length) :
    (l.modify j (· + 1)).getD k 0 = if j = k then l.getD k 0 + 1 else l.getD k 0 := by
  rw [List.getD_eq_getElem?_getD, List.getElem?_modify, List.getElem?_eq_getElem hk,
    List.getD_eq_getElem _ _ hk]
  by_cases h : j = k <;> simp [h]

theorem Tallied.change {runs : List (Bool × Nat)} (h : Tallied s runs) (b : Bool) :
    Tallied (s.change (Bit.ofBool b)) (runs ++ [(b, s.PulseLength)]) := by
  intro level
  obtain ⟨hlength, hcount⟩ := h level
  have hadd : ∀ k, countOf level (runs ++ [(b, s.PulseLength)]) k =
      countOf level runs k + if b = level ∧ min s.PulseLength 255 = k then 1 else 0 := by
    intro k
    rw [countOf, List.countP_append, List.countP_singleton]
    simp only [decide_eq_true_eq]
    rfl
  rw [hist_change (h false).1]
  by_cases hb : b = level
  · rw [if_pos hb]
    refine ⟨by rw [List.length_modify, hlength], fun k hk => ?_⟩
    rw [getD_modify _ _ _ (hlength ▸ hk), hcount k hk, hadd]
    by_cases hk' : min s.PulseLength 255 = k
    · rw [if_pos hk', if_pos ⟨hb, hk'⟩, BitVec.ofNat_add]
      rfl
    · rw [if_neg hk', if_neg fun hboth => hk' hboth.2]
      rfl
  · rw [if_neg hb]
    refine ⟨hlength, fun k hk => ?_⟩
    rw [hcount k hk, hadd, if_neg fun hboth => hb hboth.1]
    rfl

/-- **The histograms count the runs of each level.** -/
theorem feed_tallied (bits : List Bool) : ∀ {b : Bool} {s : RunState} {runs : List (Bool × Nat)},
    Tallied s runs → Tallied (feed b bits s) (runs ++ runsFrom b s.PulseLength bits) := by
  induction bits with
  | nil =>
    intro b s runs h
    exact Tallied.change (s := s.pulse) h b
  | cons c bits ih =>
    intro b s runs h
    have hpulse : Tallied s.pulse runs := h
    rw [feed, runsFrom]
    by_cases hbc : b = c
    · subst hbc
      rw [if_neg (not_not.mpr rfl), if_pos rfl]
      exact ih hpulse
    · have hrest := ih (b := c) (hpulse.change b)
      rw [List.append_assoc] at hrest
      rw [if_pos hbc, if_neg (Ne.symm hbc)]
      exact hrest

theorem collected_tallied (bits : List Bool) : Tallied (collected bits) (runsOf bits) := by
  match bits with
  | [] => exact tallied_start
  | b :: bits => exact feed_tallied bits tallied_start

/-! ## 7. The bit time -/

/-- Some big count is not exceeded by the next one. -/
def Falls (counts : List (BitVec 32)) : Prop :=
  ∃ k a b, counts[k]? = some a ∧ counts[k + 1]? = some b ∧ 10000 < a.toNat ∧ b.toNat ≤ a.toNat

theorem not_falls_nil : ¬ Falls [] := by
  rintro ⟨k, a, b, ha, -⟩
  simp at ha

theorem not_falls_singleton (cnt : BitVec 32) : ¬ Falls [cnt] := by
  rintro ⟨k, a, b, -, hb, -⟩
  simp at hb

theorem falls_cons_cons (cnt next : BitVec 32) (rest : List (BitVec 32)) :
    Falls (cnt :: next :: rest) ↔
      10000 < cnt.toNat ∧ next.toNat ≤ cnt.toNat ∨ Falls (next :: rest) := by
  constructor
  · rintro ⟨k, a, b, ha, hb, hbig, hle⟩
    cases k with
    | zero =>
      obtain rfl := Option.some.inj ha
      obtain rfl := Option.some.inj hb
      exact .inl ⟨hbig, hle⟩
    | succ k => exact .inr ⟨k, a, b, ha, hb, hbig, hle⟩
  · rintro (⟨hbig, hle⟩ | ⟨k, a, b, ha, hb, hbig, hle⟩)
    · exact ⟨0, cnt, next, rfl, rfl, hbig, hle⟩
    · exact ⟨k + 1, a, b, ha, hb, hbig, hle⟩

theorem falls_cons_of_le {cnt : BitVec 32} (h : cnt.toNat ≤ 10000) (rest : List (BitVec 32)) :
    Falls (cnt :: rest) ↔ Falls rest := by
  cases rest with
  | nil => exact iff_of_false (not_falls_singleton cnt) not_falls_nil
  | cons next rest =>
    rw [falls_cons_cons]
    exact or_iff_right fun hbig => by omega

/-- Behind a big count: the scan climbs until the counts fall. -/
theorem maxLocFrom_climb (rest : List (BitVec 32)) : ∀ {i : Nat} {cnt : BitVec 32},
    10000 < cnt.toNat → 0 < i →
      i ≤ maxLocFrom (i + 1) cnt.toNat i rest ∧
        (maxLocFrom (i + 1) cnt.toNat i rest < i + rest.length ↔ Falls (cnt :: rest)) := by
  induction rest with
  | nil =>
    intro i cnt _ _
    exact ⟨Nat.le_refl i, iff_of_false (Nat.lt_irrefl i) (not_falls_singleton cnt)⟩
  | cons next rest ih =>
    intro i cnt hbig hi
    rw [maxLocFrom, List.length_cons, falls_cons_cons]
    by_cases hup : cnt.toNat < next.toNat
    · obtain ⟨hle, hrest⟩ := ih (i := i + 1) (hbig.trans hup) (Nat.succ_pos i)
      rw [if_pos hup, or_iff_right (by omega), ← hrest]
      exact ⟨by omega, by omega⟩
    · rw [if_neg hup, if_pos (by omega)]
      exact ⟨Nat.le_refl i, iff_of_true (by omega) (.inl ⟨hbig, by omega⟩)⟩

theorem maxLocFrom_search (counts : List (BitVec 32)) : ∀ {i : Nat}, 0 < i →
    (0 < maxLocFrom i 10000 0 counts ∧ maxLocFrom i 10000 0 counts + 1 < i + counts.length ↔
      Falls counts) := by
  induction counts with
  | nil => exact fun _ => iff_of_false (fun h => Nat.lt_irrefl 0 h.1) not_falls_nil
  | cons cnt rest ih =>
    intro i hi
    rw [maxLocFrom, List.length_cons]
    by_cases hbig : 10000 < cnt.toNat
    · obtain ⟨hle, hclimb⟩ := maxLocFrom_climb rest hbig hi
      rw [if_pos hbig, ← hclimb]
      omega
    · have hlength : i + (rest.length + 1) = i.succ + rest.length := by omega
      rw [if_neg hbig, if_neg (not_not.mpr rfl), falls_cons_of_le (Nat.le_of_not_lt hbig),
        ← ih (Nat.succ_pos i), hlength]

/-- **A histogram has a bit time where some big count is not exceeded by the next one.** -/
theorem determineBitLength_ok_iff {counts : List (BitVec 32)} (hzero : counts.getD 0 0 = 0) :
    (∃ bitLength, determineBitLength counts = .ok bitLength) ↔ Falls counts := by
  have hfalls : Falls counts ↔ 0 < maxLoc counts ∧ maxLoc counts + 1 < counts.length := by
    cases counts with
    | nil => exact iff_of_false not_falls_nil fun h => absurd h.2 (Nat.not_lt_zero _)
    | cons cnt rest =>
      obtain rfl : cnt = 0 := hzero
      rw [falls_cons_of_le (by decide), ← maxLocFrom_search rest Nat.zero_lt_one,
        Nat.add_comm 1]
      rfl
  rw [hfalls, determineBitLength]
  split
  · rename_i hnone
    rw [hnone]
    exact iff_of_false (fun ⟨_, h⟩ => by cases h) fun h => Nat.lt_irrefl 0 h.1
  · rename_i below hloc
    rw [hloc]
    split
    · rename_i a b c ha hb hc
      exact iff_of_true ⟨_, rfl⟩ ⟨Nat.succ_pos below, (List.getElem?_eq_some_iff.mp hc).1⟩
    · rename_i hno
      refine iff_of_false (fun ⟨_, h⟩ => by cases h) fun h => ?_
      exact hno _ _ _ (List.getElem?_eq_getElem (by omega)) (List.getElem?_eq_getElem (by omega))
        (List.getElem?_eq_getElem h.2)

/-! ## 8. Scans that can be had back -/

theorem finish_eq (s : RunState) {a b : BitLength} (ha : determineBitLength (s.hist false) = .ok a)
    (hb : determineBitLength (s.hist true) = .ok b) :
    s.finish = .ok ⟨s.Runs, s.RunTimes, a, b⟩ := by
  have ha' : determineBitLength s.PulseLengthHistogram0 = .ok a := ha
  have hb' : determineBitLength s.PulseLengthHistogram1 = .ok b := hb
  rw [RunState.finish, ha', hb']
  rfl

theorem of_finish_eq {made : MadeRuns} (h : s.finish = .ok made) :
    made.Runs = s.Runs ∧ made.RunTimes = s.RunTimes ∧
      ∀ level, ∃ bitLength, determineBitLength (s.hist level) = .ok bitLength := by
  rw [RunState.finish] at h
  cases ha : determineBitLength s.PulseLengthHistogram0 with
  | error e => rw [ha] at h; cases h
  | ok a =>
    cases hb : determineBitLength s.PulseLengthHistogram1 with
    | error e => rw [ha, hb] at h; cases h
    | ok b =>
      rw [ha, hb] at h
      obtain rfl := Except.ok.inj h
      refine ⟨rfl, rfl, fun level => ?_⟩
      cases level
      · exact ⟨a, ha⟩
      · exact ⟨b, hb⟩

/-- `MakeRuns` returns, its runs expand to the bits behind the run that is inserted, and the
    run-times are the sums of the runs. -/
def Lossless (aBitStream : BitStream) (bits : List Bool) : Prop :=
  ∃ fuel made, makeRuns fuel aBitStream = some (.ok made) ∧
    expand false (made.Runs.map BitVec.toNat) = expand false (leading bits) ++ bits ∧
    made.RunTimes = partialSums (made.Runs.map BitVec.toNat)

/-- All runs fit in a byte. -/
def ShortRuns (bits : List Bool) : Prop := ∀ run ∈ runsOf bits, run.2 < 256

/-- Among the runs of a level some length occurs more than ten thousand times and not less often
    than the next one. Lengths from 255 on are counted together, and the counts are of 32 bits. -/
def HasPeak (bits : List Bool) (level : Bool) : Prop :=
  ∃ k < 255, 10000 < countOf level (runsOf bits) k % 2 ^ 32 ∧
    countOf level (runsOf bits) (k + 1) % 2 ^ 32 ≤ countOf level (runsOf bits) k % 2 ^ 32

theorem Tallied.falls_iff (h : Tallied s (runsOf bits))
    (level : Bool) : Falls (s.hist level) ↔ HasPeak bits level := by
  obtain ⟨hlength, hcount⟩ := h level
  have hat : ∀ k < 256, (s.hist level)[k]? =
      some (BitVec.ofNat 32 (countOf level (runsOf bits) k)) := by
    intro k hk
    rw [← hcount k hk, List.getElem?_eq_getElem (hlength ▸ hk),
      List.getD_eq_getElem _ _ (hlength ▸ hk)]
  constructor
  · rintro ⟨k, a, b, ha, hb, hbig, hle⟩
    have hk : k + 1 < 256 := hlength ▸ (List.getElem?_eq_some_iff.mp hb).1
    obtain rfl := Option.some.inj ((hat k (by omega)).symm.trans ha)
    obtain rfl := Option.some.inj ((hat (k + 1) hk).symm.trans hb)
    exact ⟨k, by omega, hbig, hle⟩
  · rintro ⟨k, hk, hbig, hle⟩
    exact ⟨k, _, _, hat k (by omega), hat (k + 1) (by omega), hbig, hle⟩

theorem runsFrom_pos (bits : List Bool) : ∀ (level : Bool) (cnt : Nat),
    ∀ run ∈ runsFrom level cnt bits, 0 < run.2 := by
  induction bits with
  | nil =>
    intro level cnt run hrun
    rw [runsFrom, List.mem_singleton] at hrun
    exact hrun ▸ Nat.succ_pos cnt
  | cons b bits ih =>
    intro level cnt run hrun
    rw [runsFrom] at hrun
    split at hrun
    · exact ih _ _ run hrun
    · rcases List.mem_cons.mp hrun with rfl | hrun
      · exact Nat.succ_pos cnt
      · exact ih _ _ run hrun

theorem countOf_zero (level : Bool) (bits : List Bool) : countOf level (runsOf bits) 0 = 0 := by
  have hpos : ∀ run ∈ runsOf bits, 0 < run.2 := by
    match bits with
    | [] => simp [runsOf]
    | b :: bits => exact runsFrom_pos bits b 0
  rw [countOf, List.countP_eq_zero]
  rintro run hrun hzero
  have := hpos run hrun
  have := (of_decide_eq_true hzero).2
  omega

/-- The bit times are found where each level has a peak. -/
theorem determineBitLength_collected_iff (bits : List Bool) (level : Bool) :
    (∃ bitLength, determineBitLength ((collected bits).hist level) = .ok bitLength) ↔
      HasPeak bits level := by
  have htallied := collected_tallied bits
  have hzero : ((collected bits).hist level).getD 0 0 = 0 := by
    rw [(htallied level).2 0 (by decide), countOf_zero]
    rfl
  rw [determineBitLength_ok_iff hzero, htallied.falls_iff]

/-- Bytes keep the sum of some numbers just where these fit. -/
theorem sum_mod_eq_iff (runs : List Nat) :
    (runs.map (· % 256)).sum ≤ runs.sum ∧
      ((runs.map (· % 256)).sum = runs.sum ↔ ∀ run ∈ runs, run < 256) := by
  induction runs with
  | nil => simp
  | cons run runs ih =>
    obtain ⟨hle, hiff⟩ := ih
    have hrun := Nat.mod_le run 256
    rw [List.map_cons, List.sum_cons, List.sum_cons, List.forall_mem_cons]
    refine ⟨by omega, fun heq => ⟨by omega, hiff.mp (by omega)⟩, ?_⟩
    rintro ⟨hlt, hrest⟩
    rw [hiff.mpr hrest, Nat.mod_eq_of_lt hlt]

theorem map_mod_eq (h : ∀ run ∈ runs, run < 256) :
    runs.map (· % 256) = runs := by
  have hid : runs.map (· % 256) = runs.map id :=
    List.map_congr_left fun run hrun => Nat.mod_eq_of_lt (h run hrun)
  rw [hid, List.map_id]

theorem toNat_runs (h : Built s runs) :
    s.Runs.map BitVec.toNat = runs.map (· % 256) := by
  rw [h.bytes, List.map_map]
  rfl

theorem sum_lengths (bits : List Bool) :
    (lengths bits).sum = (leading bits).sum + bits.length := by
  have hlength := congrArg List.length (expand_runsOf bits)
  rwa [List.length_append, length_expand, length_expand] at hlength

theorem lengths_lt_iff (bits : List Bool) :
    (∀ run ∈ lengths bits, run < 256) ↔ ShortRuns bits := by
  have hleading : ∀ run ∈ leading bits, run < 256 := by
    rcases bits with - | ⟨- | -, -⟩ <;> simp [leading]
  simp only [lengths, List.forall_mem_append, List.forall_mem_map, ShortRuns]
  exact and_iff_right hleading

theorem sum_leading_le {seen bits : List Bool} (h : seen <+: bits) :
    (leading seen).sum ≤ (leading bits).sum := by
  obtain ⟨rest, rfl⟩ := h
  rcases seen with - | ⟨- | -, -⟩
  · exact Nat.zero_le _
  · exact Nat.le_refl _
  · exact Nat.le_refl _

/-- **What the loop has collected gives the bits back just where all of them were read and the runs
    fit in bytes.** -/
theorem collected_lossless_iff {bits seen : List Bool} (hseen : seen <+: bits) :
    expand false ((collected seen).Runs.map BitVec.toNat) = expand false (leading bits) ++ bits ↔
      seen = bits ∧ ShortRuns bits := by
  rw [toNat_runs (collected_built seen)]
  obtain ⟨hle, hiff⟩ := sum_mod_eq_iff (lengths seen)
  constructor
  · intro heq
    have hlength := congrArg List.length heq
    have hsum := sum_lengths seen
    have hleading := sum_leading_le hseen
    have hprefix := hseen.length_le
    rw [List.length_append, length_expand, length_expand] at hlength
    obtain rfl := hseen.eq_of_length (by omega)
    exact ⟨rfl, (lengths_lt_iff seen).mp (hiff.mp (by omega))⟩
  · rintro ⟨rfl, hshort⟩
    rw [map_mod_eq ((lengths_lt_iff seen).mpr hshort)]
    exact expand_runsOf seen

theorem readable_isPrefix (bits : List Bool) (cnt : Nat) :
    readable bits cnt <+: bits.drop cnt := by
  rw [readable, List.drop_take]
  exact List.take_prefix _ _

/-- **The runs give the bits of a scan back exactly where its last byte is not full, the runs are
    shorter than 256, and each level has a peak.** -/
theorem lossless_iff {strm : BitStream} {bits : List Bool} {cnt : Nat} (h : Holds strm bits cnt) :
    Lossless strm (bits.drop cnt) ↔
      ¬ (8 ∣ bits.length ∧ cnt < bits.length) ∧ ShortRuns (bits.drop cnt) ∧
        HasPeak (bits.drop cnt) false ∧ HasPeak (bits.drop cnt) true := by
  have hpeak := determineBitLength_collected_iff (readable bits cnt)
  rw [← readable_eq_iff h.le]
  constructor
  · rintro ⟨fuel, made, hmade, hexpand, -⟩
    rw [makeRuns_eq h] at hmade
    split at hmade
    · obtain ⟨hruns, -, hbit⟩ := of_finish_eq (Option.some.inj hmade)
      rw [hruns, collected_lossless_iff (readable_isPrefix bits cnt)] at hexpand
      obtain ⟨hall, hshort⟩ := hexpand
      rw [hall] at hpeak hbit
      exact ⟨hall, hshort, (hpeak false).mp (hbit false), (hpeak true).mp (hbit true)⟩
    · cases hmade
  · rintro ⟨hall, hshort, hlow, hhigh⟩
    rw [hall] at hpeak
    obtain ⟨a, ha⟩ := (hpeak false).mpr hlow
    obtain ⟨b, hb⟩ := (hpeak true).mpr hhigh
    have hbuilt := collected_built (bits.drop cnt)
    have hmade : makeRuns ((readable bits cnt).length + 1) strm = some (.ok
        ⟨(collected (bits.drop cnt)).Runs, (collected (bits.drop cnt)).RunTimes, a, b⟩) := by
      rw [makeRuns_eq h, if_pos (Nat.le_refl _), hall, finish_eq _ ha hb]
    refine ⟨_, _, hmade, (collected_lossless_iff List.prefix_rfl).mpr ⟨rfl, hshort⟩, ?_⟩
    rw [toNat_runs hbuilt, map_mod_eq ((lengths_lt_iff _).mpr hshort)]
    exact hbuilt.times

/-- Bits of which no two neighbours are the same. -/
def alternating : Bool → Nat → List Bool
  | _, 0 => []
  | b, n + 1 => b :: alternating (!b) n

theorem length_alternating (b : Bool) (n : Nat) : (alternating b n).length = n := by
  induction n generalizing b with
  | zero => rfl
  | succ n ih => rw [alternating, List.length_cons, ih]

theorem runsFrom_alternating (b : Bool) (n : Nat) :
    runsFrom b 0 (alternating (!b) n) = (alternating b (n + 1)).map fun level => (level, 1) := by
  induction n generalizing b with
  | zero => rfl
  | succ n ih =>
    rw [alternating, runsFrom, if_neg (Bool.not_ne_self b), ih (!b)]
    rfl

theorem count_alternating (b level : Bool) (m : Nat) :
    (alternating b (2 * m)).count level = m := by
  induction m with
  | zero => rfl
  | succ m ih =>
    have hpair : alternating b (2 * (m + 1)) = b :: (!b) :: alternating b (2 * m) := by
      rw [Nat.mul_succ, alternating, alternating, Bool.not_not]
    rw [hpair, List.count_cons, List.count_cons, ih]
    cases b <;> cases level <;> rfl

/-- The runs of the bits that alternate, by their length. -/
theorem countOf_alternating (level : Bool) (m k : Nat) :
    countOf level (runsOf (alternating false (2 * m))) k = if k = 1 then m else 0 := by
  cases m with
  | zero => exact (ite_self 0).symm
  | succ m =>
    have hruns : runsOf (alternating false (2 * (m + 1))) =
        (alternating false (2 * (m + 1))).map fun level => (level, 1) :=
      runsFrom_alternating false (2 * m + 1)
    rw [hruns, countOf, List.countP_map]
    split
    · rename_i hk
      refine Eq.trans (List.countP_congr fun b _ => ?_) (count_alternating false level (m + 1))
      simp [hk]
    · rename_i hk
      refine List.countP_eq_zero.mpr fun b _ => ?_
      simp [Ne.symm hk]

/-- The law applied to a stream of ten thousand and one runs of one bit of each level. -/
theorem lossless_iff_alternating :
    Lossless (BitStream.clear.pushAll (alternating false 20002)) (alternating false 20002) := by
  have hshort : ShortRuns (alternating false 20002) := by
    intro run hrun
    have hmem : run ∈ (alternating false 20002).map fun level => (level, 1) :=
      runsFrom_alternating false 20001 ▸ hrun
    obtain ⟨level, -, rfl⟩ := List.mem_map.mp hmem
    exact (by decide : 1 < 256)
  have hpeak : ∀ level, HasPeak (alternating false 20002) level := by
    intro level
    refine ⟨1, by decide, ?_, ?_⟩
    · rw [countOf_alternating level 10001]
      decide
    · rw [countOf_alternating level 10001, countOf_alternating level 10001]
      decide
  have hstream : Holds (BitStream.clear.pushAll (alternating false 20002))
      (alternating false 20002) 0 := (holds_read []).pushAll _
  have hread : ¬ (8 ∣ (alternating false 20002).length ∧ 0 < (alternating false 20002).length) := by
    rw [length_alternating]
    decide
  exact (lossless_iff hstream).mpr ⟨hread, hshort, hpeak false, hpeak true⟩

/-- A scan of one byte: none of its bits is read, and there is no maximum in the histograms. -/
theorem not_lossless : ¬ Lossless (BitStream.read [0]).1 (fileBits [0]) := by
  rintro ⟨fuel, made, hmade, -⟩
  cases fuel with
  | zero => cases hmade
  | succ fuel =>
    have hundefined : RunState.start.finish = .error .undefinedBehaviour := by
      decide +kernel
    have hreturn : makeRuns (fuel + 1) (BitStream.read [0]).1 = some RunState.start.finish := rfl
    rw [hreturn, hundefined] at hmade
    cases hmade

end DiskDecode

end CraySim
