/-
  Subject:   Modified frequency modulation: bits as the intervals between transitions.

  A bit takes a cell of two half cells. A 1 has a transition in the middle of its cell; between two
  0 there is one at the boundary of their cells. What a decoder sees are the intervals between the
  transitions, two to four half cells long.

  * `transitions`, `gaps`, `intervals` -- when the transitions are, and how far apart,
  * `completedCells` -- how many cells are known at a time,
  * `decode_intervals` -- it gives back the bits, as far as the intervals go.
-/

namespace Mfm

/-! ## 1. Encoding -/

/-- The times of the transitions, in half cells; the cell of the first bit is number `i`, and `prev`
    is the bit in front of it. -/
def transitions : Bool → Nat → List Bool → List Nat
  | _, _, [] => []
  | _, i, true :: bits => (2 * i + 1) :: transitions true (i + 1) bits
  | false, i, false :: bits => 2 * i :: transitions false (i + 1) bits
  | true, i, false :: bits => transitions false (i + 1) bits

/-- How far each time is from the one in front of it; `t` is in front of the first. -/
def gaps : Nat → List Nat → List Nat
  | _, [] => []
  | t, t' :: times => (t' - t) :: gaps t' times

/-- The intervals between the transitions of a 0 with a 0 in front of it and the bits behind it;
    the first transition is the one at the start of that 0. -/
def intervals (bits : List Bool) : List Nat := gaps 0 (transitions false 1 bits)

/-- The number of cells that are known when the last transition was at time `t`: those that end
    there, and the one in whose middle it is. -/
def completedCells (t : Nat) : Nat := (t + 1) / 2

/-- The time of the `k`-th transition behind the one at the start. -/
def timeOf (bits : List Bool) (k : Nat) : Nat := (0 :: transitions false 1 bits).getD k 0

/-! ## 2. Decoding -/

/-- The bits that an interval completes. The phase is the last bit: after a 1 the last transition
    was in the middle of a cell. -/
def step : Bool → Nat → Option (List Bool × Bool)
  | phase, 2 => some ([phase], phase)
  | false, 3 => some ([false, true], true)
  | true, 3 => some ([false], false)
  | true, 4 => some ([false, true], true)
  | _, _ => none

/-- The bits of a row of intervals, if it is possible. -/
def decode : Bool → List Nat → Option (List Bool)
  | _, [] => some []
  | phase, gap :: rest =>
    match step phase gap with
    | some (bits, phase') => (decode phase' rest).map (bits ++ ·)
    | none => none

/-! ## 3. Round trip -/

/-- The time of the last transition, where cell `i` has it. -/
def lastTime (phase : Bool) (i : Nat) : Nat := if phase then 2 * i + 1 else 2 * i

/-- The cells that are not known yet: behind a 1 those that follow, else also cell `i` itself. -/
def unknown (phase : Bool) (bits : List Bool) : List Bool := if phase then bits else false :: bits

/-- The first interval: what it completes, and where the last transition is then. -/
theorem transitions_cases (phase : Bool) (i : Nat) (bits : List Bool) :
    transitions phase (i + 1) bits = [] ∨
      ∃ phase' j rest out,
        transitions phase (i + 1) bits = lastTime phase' j :: transitions phase' (j + 1) rest ∧
        step phase (lastTime phase' j - lastTime phase i) = some (out, phase') ∧
        unknown phase bits = out ++ unknown phase' rest ∧
        completedCells (lastTime phase' j) = completedCells (lastTime phase i) + out.length := by
  have hthree : 2 * (i + 1) + 1 - 2 * i = 3 := by omega
  have htwo : 2 * (i + 1) + 1 - (2 * i + 1) = 2 := by omega
  have hback : 2 * (i + 2) - (2 * i + 1) = 3 := by omega
  have hfour : 2 * (i + 2) + 1 - (2 * i + 1) = 4 := by omega
  match phase, bits with
  | _, [] => exact .inl rfl
  | true, [false] => exact .inl rfl
  | false, false :: rest =>
    refine .inr ⟨false, i + 1, rest, [false], rfl, ?_, rfl, ?_⟩
    · rw [lastTime, lastTime, if_neg Bool.false_ne_true, if_neg Bool.false_ne_true, Nat.mul_succ,
        Nat.add_sub_cancel_left]
      rfl
    · simp only [completedCells, lastTime, Bool.false_eq_true, if_false, List.length_singleton]
      omega
  | false, true :: rest =>
    refine .inr ⟨true, i + 1, rest, [false, true], rfl, ?_, rfl, ?_⟩
    · rw [lastTime, lastTime, if_pos rfl, if_neg Bool.false_ne_true, hthree]
      rfl
    · simp only [completedCells, lastTime, Bool.false_eq_true, if_false, if_true, List.length_cons,
        List.length_nil]
      omega
  | true, true :: rest =>
    refine .inr ⟨true, i + 1, rest, [true], rfl, ?_, rfl, ?_⟩
    · rw [lastTime, lastTime, if_pos rfl, if_pos rfl, htwo]
      rfl
    · simp only [completedCells, lastTime, if_true, List.length_singleton]
      omega
  | true, false :: false :: rest =>
    refine .inr ⟨false, i + 2, rest, [false], rfl, ?_, rfl, ?_⟩
    · rw [lastTime, lastTime, if_neg Bool.false_ne_true, if_pos rfl, hback]
      rfl
    · simp only [completedCells, lastTime, Bool.false_eq_true, if_false, if_true,
        List.length_singleton]
      omega
  | true, false :: true :: rest =>
    refine .inr ⟨true, i + 2, rest, [false, true], rfl, ?_, rfl, ?_⟩
    · rw [lastTime, lastTime, if_pos rfl, if_pos rfl, hfour]
      rfl
    · simp only [completedCells, lastTime, if_true, List.length_cons, List.length_nil]
      omega

/-- From any transition on, by induction on the number of intervals: what is decoded is a front part
    of the unknown cells, and as many cells as it has bits are known afterwards. -/
theorem decode_gaps (phase : Bool) (i : Nat) (bits : List Bool) (k : Nat)
    (hk : k ≤ (transitions phase (i + 1) bits).length) :
    ∃ out, decode phase ((gaps (lastTime phase i) (transitions phase (i + 1) bits)).take k) =
        some out ∧
      out <+: unknown phase bits ∧
      completedCells ((lastTime phase i :: transitions phase (i + 1) bits).getD k 0) =
        completedCells (lastTime phase i) + out.length := by
  induction k generalizing phase i bits with
  | zero =>
    rw [List.take_zero]
    exact ⟨[], rfl, List.nil_prefix, rfl⟩
  | succ k ih =>
    rcases transitions_cases phase i bits with hnil | ⟨phase', j, rest, out, htimes, hstep, hcells,
      hdone⟩
    · rw [hnil] at hk
      exact absurd hk (Nat.not_succ_le_zero k)
    · rw [htimes, List.length_cons] at hk
      obtain ⟨later, hdecode, hprefix, hcount⟩ := ih phase' j rest (Nat.le_of_succ_le_succ hk)
      refine ⟨out ++ later, ?_, ?_, ?_⟩
      · simp only [htimes, gaps, List.take_succ_cons, decode, hstep, hdecode, Option.map_some]
      · rw [hcells]
        exact (List.prefix_append_right_inj out).mpr hprefix
      · rw [htimes, List.getD_cons_succ, hcount, hdone, List.length_append, Nat.add_assoc]

theorem length_gaps (t : Nat) (times : List Nat) : (gaps t times).length = times.length := by
  induction times generalizing t with
  | nil => rfl
  | cons t' times ih => rw [gaps, List.length_cons, List.length_cons, ih]

/-- **Decoding inverts encoding**: the first `k` intervals behind a 0 that has a 0 in front of it
    give the cells that they complete. -/
theorem decode_intervals (bits : List Bool) (k : Nat) (hk : k ≤ (intervals bits).length) :
    decode false ((intervals bits).take k) =
      some ((false :: bits).take (completedCells (timeOf bits k))) := by
  rw [intervals, length_gaps] at hk
  obtain ⟨out, hdecode, hprefix, hcount⟩ := decode_gaps false 0 bits k hk
  have htime : completedCells (timeOf bits k) = out.length := hcount.trans (Nat.zero_add _)
  have hout : out = (false :: bits).take out.length := List.prefix_iff_eq_take.mp hprefix
  rw [htime, ← hout]
  exact hdecode

end Mfm
