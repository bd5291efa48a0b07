/-
  Subject:   `Decode` gives back the bits that were written.

  * `pulseTypes` -- what the categorizer makes of a row of pulses,
  * `decodeFrom_mfm` -- the loop of `Decode` is the decoder of the modulation,
  * `decode_inverts` -- so it gives the bits of the cells that the pulses complete.
-/
import CraySim.DiskDecode
import CraySim.Lib.Mfm

namespace CraySim

namespace DiskDecode

/-- The types of the pulses from run `idx` on. -/
def pulseTypes (aPulseCategorizer : PulseCategorizer) : Nat → List (BitVec 8) → List PulseType
  | _, [] => []
  | idx, width :: runs =>
    categorizePulse width (idx % 2) aPulseCategorizer :: pulseTypes aPulseCategorizer (idx + 1) runs

/-- A bit of the disk. -/
def Bit.ofBool (b : Bool) : Bit := if b then .One else .Zero

@[simp] theorem ofBool_true : Bit.ofBool true = .One := rfl

@[simp] theorem ofBool_false : Bit.ofBool false = .Zero := rfl

section decode
variable {aPulseCategorizer : PulseCategorizer}

theorem length_pulseTypes (idx : Nat) (runs : List (BitVec 8)) :
    (pulseTypes aPulseCategorizer idx runs).length = runs.length := by
  induction runs generalizing idx with
  | nil => rfl
  | cons width runs ih => rw [pulseTypes, List.length_cons, List.length_cons, ih]

theorem pulseTypes_append (idx : Nat) (runs runs' : List (BitVec 8)) :
    pulseTypes aPulseCategorizer idx (runs ++ runs') =
      pulseTypes aPulseCategorizer idx runs ++
        pulseTypes aPulseCategorizer (idx + runs.length) runs' := by
  induction runs generalizing idx with
  | nil => rfl
  | cons width runs ih =>
    rw [List.cons_append, pulseTypes, pulseTypes, ih, List.cons_append, List.length_cons,
      Nat.add_assoc, Nat.add_comm 1]

/-- One round of the loop, for a pulse whose length is possible in the phase. -/
theorem decodeFrom_step {idx : Nat} {phase phase' : Bool} {width : BitVec 8}
    {runs : List (BitVec 8)} {retVal : DecodeResults} {bits : List Bool}
    (h : Mfm.step phase (categorizePulse width (idx % 2) aPulseCategorizer).HalfBitLen =
      some (bits, phase')) :
    decodeFrom aPulseCategorizer idx (.ofBool phase) retVal (width :: runs) =
      decodeFrom aPulseCategorizer (idx + 1) (.ofBool phase')
        ⟨retVal.Data ++ bits.map .ofBool, retVal.ErrorRate +
          if (categorizePulse width (idx % 2) aPulseCategorizer).Error then 1 else 0⟩ runs := by
  rw [decodeFrom]
  generalize categorizePulse width (idx % 2) aPulseCategorizer = pulseType at h
  have herror : (if pulseType.Error = true then retVal.ErrorRate + 1 else retVal.ErrorRate) =
      retVal.ErrorRate + if pulseType.Error = true then 1 else 0 := by
    split <;> rfl
  rw [herror]
  obtain ⟨len, error⟩ := pulseType
  dsimp only at h ⊢
  unfold Mfm.step at h
  split at h <;> cases h <;> rfl

/-- The loop of `Decode`, over pulses whose lengths are possible. -/
theorem decodeFrom_mfm {idx : Nat} {phase : Bool} {runs : List (BitVec 8)} {retVal : DecodeResults}
    {bits : List Bool}
    (h : Mfm.decode phase ((pulseTypes aPulseCategorizer idx runs).map PulseType.HalfBitLen) =
      some bits) :
    decodeFrom aPulseCategorizer idx (.ofBool phase) retVal runs =
      ⟨retVal.Data ++ bits.map .ofBool,
        retVal.ErrorRate + (pulseTypes aPulseCategorizer idx runs).countP PulseType.Error⟩ := by
  induction runs generalizing idx phase retVal bits with
  | nil =>
    obtain rfl := Option.some.inj h
    rw [decodeFrom, List.map_nil, List.append_nil]
    rfl
  | cons width runs ih =>
    rw [pulseTypes, List.map_cons, Mfm.decode] at h
    split at h
    · rename_i out phase' hstep
      obtain ⟨later, hlater, rfl⟩ := Option.map_eq_some_iff.mp h
      rw [decodeFrom_step hstep, ih hlater, List.map_append, List.append_assoc, pulseTypes,
        List.countP_cons, Nat.add_assoc, Nat.add_comm (List.countP _ _)]
    · cases h

end decode

/-- **`Decode` inverts the encoding.** The runs from `aStartIdx` to `aEndIdx` are classified as the
    first intervals of a 0, with a 0 in front of it, and the bits behind it; then `Decode` returns
    the bits of the cells that these intervals complete, and counts the suspicious pulses. -/
theorem decode_inverts (aPulseCategorizer : PulseCategorizer) (aRuns : List (BitVec 8))
    (aStartIdx aEndIdx : Nat) (bits : List Bool)
    (hwidths : (pulseTypes aPulseCategorizer aStartIdx
      ((aRuns.take aEndIdx).drop aStartIdx)).map PulseType.HalfBitLen <+: Mfm.intervals bits) :
    decode aRuns aStartIdx aEndIdx aPulseCategorizer =
      { Data := ((false :: bits).take (Mfm.completedCells
          (Mfm.timeOf bits ((aRuns.take aEndIdx).drop aStartIdx).length))).map .ofBool
        ErrorRate := (pulseTypes aPulseCategorizer aStartIdx
          ((aRuns.take aEndIdx).drop aStartIdx)).countP PulseType.Error } := by
  have hlen := hwidths.length_le
  have htake := List.prefix_iff_eq_take.mp hwidths
  rw [List.length_map, length_pulseTypes] at hlen htake
  have hdecode := Mfm.decode_intervals bits _ hlen
  rw [← htake] at hdecode
  rw [decode, ← ofBool_false, decodeFrom_mfm hdecode, List.nil_append, Nat.zero_add]

/-- Five pulses with the strict tables, one of them suspicious. -/
theorem decode_inverts_strict :
    decode [7, 12, 9, 16, 11] 0 5 cStrictCategorizer =
      ⟨[.Zero, .Zero, .One, .One, .Zero, .One, .Zero], 1⟩ :=
  (decode_inverts cStrictCategorizer [7, 12, 9, 16, 11] 0 5
    [false, true, true, false, true, false, false] (by decide)).trans (by decide)

end DiskDecode

end CraySim
