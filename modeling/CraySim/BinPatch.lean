/-
  Subject:   Patching a binary image, as `bin_patch.cpp` does it.

  A patch is a window of 16-bit words, each with the bits it has to have and the bits it gets. Every
  window of the image is to be tried, the later ones in what the earlier ones have left.

  * `PatchLine` -- `Patch_s`, a line of the patch file,
  * `apply` -- `PatchFile_c::Apply`, every access to the image checked,
  * `MatchesAt`, `Replaced` -- a window that matches, and one that is replaced, bit by bit,
  * `Patched` -- the windows tried one after the other,
  * `applies_iff` -- `Apply` does that exactly where the last window of the image fits in and does
    not match.
-/
import CraySim.Types

namespace CraySim

namespace BinPatch

/-! ## 1. The patch and the image -/

/-- `ValMask_s`. -/
structure ValMask where
  mValue : BitVec 16
  mMask : BitVec 16
  deriving DecidableEq, Repr

/-- `Patch_s`. -/
structure PatchLine where
  mMatch : ValMask
  mPatch : ValMask
  deriving DecidableEq, Repr

/-- `((w ^ mMatch.mValue) & mMatch.mMask) != 0`. -/
def PatchLine.differs (p : PatchLine) (w : BitVec 16) : Bool :=
  (w ^^^ p.mMatch.mValue) &&& p.mMatch.mMask != 0

/-- `(w & ~mPatch.mMask) | (mPatch.mValue & mPatch.mMask)`. -/
def PatchLine.put (p : PatchLine) (w : BitVec 16) : BitVec 16 :=
  (w &&& ~~~p.mPatch.mMask) ||| (p.mPatch.mValue &&& p.mPatch.mMask)

/-! ## 2. `Apply` -/

/-- The loop that looks for a difference, from the word at `pos` on: what it leaves in `Found`.
    Behind the end of the image nothing is defined. -/
def find (aArray : List (BitVec 16)) : Nat → List PatchLine → Except Exn Bool
  | _, [] => .ok true
  | pos, p :: ps =>
    match aArray[pos]? with
    | none => .error .undefinedBehaviour
    | some w => if p.differs w then .ok false else find aArray (pos + 1) ps

/-- The loop that replaces the window. -/
def replace : Nat → List PatchLine → List (BitVec 16) → Except Exn (List (BitVec 16))
  | _, [], aArray => .ok aArray
  | pos, p :: ps, aArray =>
    match aArray[pos]? with
    | none => .error .undefinedBehaviour
    | some w => replace (pos + 1) ps (aArray.set pos (p.put w))

/-- A round of the outer loop. -/
def applyRound (mPatch : List PatchLine) (Start : Nat) (MatchCount : BitVec 32)
    (aArray : List (BitVec 16)) : Except Exn (BitVec 32 × List (BitVec 16)) := do
  if ← find aArray Start mPatch then
    let aArray ← replace Start mPatch aArray
    return (MatchCount + 1, aArray)
  else return (MatchCount, aArray)

/-- The outer loop. -/
def applyLoop (mPatch : List PatchLine) (LastStart Start : Nat) (MatchCount : BitVec 32)
    (aArray : List (BitVec 16)) : Except Exn (BitVec 32 × List (BitVec 16)) :=
  if Start < LastStart then
    (applyRound mPatch Start MatchCount aArray).bind fun r =>
      applyLoop mPatch LastStart (Start + 1) r.1 r.2
  else .ok (MatchCount, aArray)
termination_by LastStart - Start

/-- `aArray.size() - mPatch.size()`, in 64 bits. -/
def lastStart (mPatch : List PatchLine) (aArray : List (BitVec 16)) : Nat :=
  (aArray.length + 2 ^ 64 - mPatch.length) % 2 ^ 64

/-- **`PatchFile_c::Apply`**: the count and the image. -/
def apply (mPatch : List PatchLine) (aArray : List (BitVec 16)) :
    Except Exn (BitVec 32 × List (BitVec 16)) :=
  applyLoop mPatch (lastStart mPatch aArray) 0 0 aArray

/-! ## 3. What it is for -/

/-- The window at `i` has every bit that is asked for. -/
def MatchesAt (ps : List PatchLine) (ws : List (BitVec 16)) (i : Nat) : Prop :=
  ∀ k p, ps[k]? = some p → ∃ w, ws[i + k]? = some w ∧
    ∀ b < 16, p.mMatch.mMask.getLsbD b = true → w.getLsbD b = p.mMatch.mValue.getLsbD b

/-- The line of the patch for the word at `j`, with the window at `i`. -/
def lineAt (ps : List PatchLine) (i j : Nat) : Option PatchLine := if i ≤ j then ps[j - i]? else none

/-- A bit of the word at `j` with the window at `i` replaced. -/
def newBit (ps : List PatchLine) (i j : Nat) (w : BitVec 16) (b : Nat) : Bool :=
  match lineAt ps i j with
  | some p => if p.mPatch.mMask.getLsbD b then p.mPatch.mValue.getLsbD b else w.getLsbD b
  | none => w.getLsbD b

/-- The masked bits of the window at `i` are replaced, and no other bit of the image. -/
structure Replaced (ps : List PatchLine) (i : Nat) (ws ws' : List (BitVec 16)) : Prop where
  length : ws'.length = ws.length
  bits : ∀ j w, ws[j]? = some w → ∃ w', ws'[j]? = some w' ∧
    ∀ b < 16, w'.getLsbD b = newBit ps i j w b

/-- The windows at the given places tried one after the other in the image as it is then: how many
    of them match, and the image behind them. -/
inductive Patched (ps : List PatchLine) :
    List Nat → List (BitVec 16) → Nat → List (BitVec 16) → Prop where
  | done {ws} : Patched ps [] ws 0 ws
  | hit {i is ws ws' ws'' c} : MatchesAt ps ws i → Replaced ps i ws ws' →
      Patched ps is ws' c ws'' → Patched ps (i :: is) ws (c + 1) ws''
  | miss {i is ws ws' c} : ¬ MatchesAt ps ws i → Patched ps is ws c ws' →
      Patched ps (i :: is) ws c ws'

/-- The places of the windows of `m` words in an image of `n`. -/
def places (n m : Nat) : List Nat := List.range (n + 1 - m)

/-- `Apply` stays in the image, tries every window of it and returns the number of those that
    match. -/
def Applies (ps : List PatchLine) (ws : List (BitVec 16)) : Prop :=
  ∃ count ws', apply ps ws = .ok (count, ws') ∧
    Patched ps (places ws.length ps.length) ws count.toNat ws'

/-! ## 4. One word -/

theorem differs_eq_false_iff {p : PatchLine} {w : BitVec 16} : p.differs w = false ↔
    ∀ b < 16, p.mMatch.mMask.getLsbD b = true → w.getLsbD b = p.mMatch.mValue.getLsbD b := by
  have hbit : ∀ b, ((w ^^^ p.mMatch.mValue) &&& p.mMatch.mMask).getLsbD b =
      ((w.getLsbD b ^^ p.mMatch.mValue.getLsbD b) && p.mMatch.mMask.getLsbD b) := by
    intro b
    rw [BitVec.getLsbD_and, BitVec.getLsbD_xor]
  have hnone : ∀ b, (0 : BitVec 16).getLsbD b = false := fun _ => BitVec.getLsbD_zero
  rw [PatchLine.differs, bne_eq_false_iff_eq]
  constructor
  · intro h b _ hmask
    have hzero := hbit b
    rw [h, hmask, Bool.and_true, hnone] at hzero
    exact bne_eq_false_iff_eq.mp hzero.symm
  · intro h
    apply BitVec.eq_of_getLsbD_eq
    intro b hb
    rw [hbit, hnone]
    by_cases hmask : p.mMatch.mMask.getLsbD b = true
    · rw [h b hb hmask, Bool.xor_self, Bool.false_and]
    · rw [Bool.eq_false_iff.mpr hmask, Bool.and_false]

theorem getLsbD_put (p : PatchLine) (w : BitVec 16) {b : Nat} (hb : b < 16) :
    (p.put w).getLsbD b =
      if p.mPatch.mMask.getLsbD b then p.mPatch.mValue.getLsbD b else w.getLsbD b := by
  rw [PatchLine.put, BitVec.getLsbD_or, BitVec.getLsbD_and, BitVec.getLsbD_and, BitVec.getLsbD_not,
    decide_eq_true hb, Bool.true_and]
  cases p.mPatch.mMask.getLsbD b with
  | true => simp
  | false => simp

/-! ## 5. One window -/

section window
variable {p : PatchLine} {ps : List PatchLine} {ws ws' : List (BitVec 16)} {i : Nat}

theorem matchesAt_nil : MatchesAt [] ws i := by
  intro k p hp
  exact absurd hp (by simp)

theorem matchesAt_cons {w : BitVec 16} (hw : ws[i]? = some w) :
    MatchesAt (p :: ps) ws i ↔ p.differs w = false ∧ MatchesAt ps ws (i + 1) := by
  rw [differs_eq_false_iff]
  constructor
  · intro h
    refine ⟨?_, fun k q hq => ?_⟩
    · obtain ⟨w', hw', hbits⟩ := h 0 p rfl
      rw [Nat.add_zero, hw] at hw'
      exact Option.some.inj hw' ▸ hbits
    · have hidx : i + 1 + k = i + (k + 1) := by omega
      rw [hidx]
      exact h (k + 1) q hq
  · intro h k q hq
    cases k with
    | zero =>
      obtain rfl := Option.some.inj hq
      exact ⟨w, hw, h.1⟩
    | succ k =>
      have hidx : i + (k + 1) = i + 1 + k := by omega
      rw [hidx]
      exact h.2 k q hq

/-- The search ends with a result or leaves the image. -/
theorem find_of_fits (h : i + ps.length ≤ ws.length) :
    ∃ b, find ws i ps = .ok b ∧ (b = true ↔ MatchesAt ps ws i) := by
  induction ps generalizing i with
  | nil => exact ⟨true, rfl, fun _ => matchesAt_nil, fun _ => rfl⟩
  | cons p ps ih =>
    rw [List.length_cons] at h
    have hlt : i < ws.length := by omega
    have hw : ws[i]? = some ws[i] := List.getElem?_eq_getElem hlt
    rw [find, hw, matchesAt_cons hw]
    cases hd : p.differs ws[i] with
    | true => exact ⟨false, by simp [hd], by simp⟩
    | false =>
      obtain ⟨b, hb, hiff⟩ := ih (i := i + 1) (by omega)
      exact ⟨b, by simpa [hd] using hb, by simpa using hiff⟩

/-- The image with the window at `i` replaced. -/
def replaced (ps : List PatchLine) (i : Nat) (ws : List (BitVec 16)) : List (BitVec 16) :=
  ws.mapIdx fun j w => match lineAt ps i j with
    | some p => p.put w
    | none => w

@[simp] theorem length_replaced : (replaced ps i ws).length = ws.length := List.length_mapIdx

theorem replaced_iff : Replaced ps i ws ws' ↔ ws' = replaced ps i ws := by
  have hget : ∀ j w, ws[j]? = some w → ∃ w', (replaced ps i ws)[j]? = some w' ∧
      ∀ b < 16, w'.getLsbD b = newBit ps i j w b := by
    intro j w hw
    rw [replaced, List.getElem?_mapIdx, hw, Option.map_some]
    refine ⟨_, rfl, fun b hb => ?_⟩
    rw [newBit]
    cases lineAt ps i j with
    | none => rfl
    | some p => exact getLsbD_put p w hb
  constructor
  · intro h
    refine List.ext_getElem? fun j => ?_
    cases hw : ws[j]? with
    | none =>
      have hge : ws.length ≤ j := List.getElem?_eq_none_iff.mp hw
      rw [List.getElem?_eq_none (by rw [h.length]; exact hge),
        List.getElem?_eq_none (by rw [length_replaced]; exact hge)]
    | some w =>
      obtain ⟨w', hw', hbits'⟩ := h.bits j w hw
      obtain ⟨w'', hw'', hbits''⟩ := hget j w hw
      rw [hw', hw'']
      exact congrArg some (BitVec.eq_of_getLsbD_eq fun b hb => (hbits' b hb).trans (hbits'' b hb).symm)
  · intro h
    rw [h]
    exact ⟨length_replaced, hget⟩

theorem replaced_nil : replaced [] i ws = ws := by
  have hline : ∀ j, lineAt [] i j = none := by
    intro j
    rw [lineAt]
    split <;> rfl
  refine List.ext_getElem? fun j => ?_
  rw [replaced, List.getElem?_mapIdx]
  simp only [hline, Option.map_id']

/-- The first word of the window, and the rest of it. -/
theorem replaced_cons {w : BitVec 16} (hw : ws[i]? = some w) :
    replaced (p :: ps) i ws = replaced ps (i + 1) (ws.set i (p.put w)) := by
  refine List.ext_getElem? fun j => ?_
  rw [replaced, replaced, List.getElem?_mapIdx, List.getElem?_mapIdx]
  rcases Nat.lt_trichotomy j i with hj | rfl | hj
  · have hfirst : lineAt (p :: ps) i j = none := if_neg (by omega)
    have hrest : lineAt ps (i + 1) j = none := if_neg (by omega)
    rw [hfirst, hrest, List.getElem?_set_ne (by omega)]
  · have hfirst : lineAt (p :: ps) j j = some p := by
      rw [lineAt, if_pos (Nat.le_refl j), Nat.sub_self, List.getElem?_cons_zero]
    have hrest : lineAt ps (j + 1) j = none := if_neg (by omega)
    have hlt : j < ws.length := (List.getElem?_eq_some_iff.mp hw).1
    rw [hfirst, hrest, List.getElem?_set_self hlt, hw]
    rfl
  · have hfirst : lineAt (p :: ps) i j = lineAt ps (i + 1) j := by
      have hidx : j - i = j - (i + 1) + 1 := by omega
      rw [lineAt, lineAt, if_pos (by omega), if_pos (by omega), hidx, List.getElem?_cons_succ]
    rw [hfirst, List.getElem?_set_ne (by omega)]

theorem replace_of_fits (h : i + ps.length ≤ ws.length) :
    replace i ps ws = .ok (replaced ps i ws) := by
  induction ps generalizing i ws with
  | nil => rw [replace, replaced_nil]
  | cons p ps ih =>
    rw [List.length_cons] at h
    have hlt : i < ws.length := by omega
    have hw : ws[i]? = some ws[i] := List.getElem?_eq_getElem hlt
    rw [replace, hw, replaced_cons hw]
    exact ih (by rw [List.length_set]; omega)

/-- A window that is replaced keeps the length of the image. -/
theorem length_replace (h : replace i ps ws = .ok ws') : ws'.length = ws.length := by
  induction ps generalizing i ws with
  | nil => exact congrArg List.length (Except.ok.inj h).symm
  | cons p ps ih =>
    rw [replace] at h
    cases hw : ws[i]? with
    | none =>
      rw [hw] at h
      cases h
    | some w =>
      rw [hw] at h
      rw [ih h, List.length_set]

end window

/-! ## 6. The rounds -/

section rounds
variable {ps : List PatchLine} {ws ws' : List (BitVec 16)} {i : Nat} {count : BitVec 32}

theorem applyRound_hit (hfit : i + ps.length ≤ ws.length) (h : MatchesAt ps ws i) :
    applyRound ps i count ws = .ok (count + 1, replaced ps i ws) := by
  obtain ⟨b, hb, hiff⟩ := find_of_fits hfit
  rw [applyRound, hb, hiff.mpr h, replace_of_fits hfit]
  rfl

theorem applyRound_miss (hfit : i + ps.length ≤ ws.length) (h : ¬ MatchesAt ps ws i) :
    applyRound ps i count ws = .ok (count, ws) := by
  obtain ⟨b, hb, hiff⟩ := find_of_fits hfit
  have hfalse : b = false := by simpa using fun hb => h (hiff.mp hb)
  rw [applyRound, hb, hfalse]
  rfl

theorem length_applyRound {r : BitVec 32 × List (BitVec 16)}
    (h : applyRound ps i count ws = .ok r) : r.2.length = ws.length := by
  rw [applyRound] at h
  cases hfind : find ws i ps with
  | error e =>
    rw [hfind] at h
    cases h
  | ok b =>
    rw [hfind] at h
    cases b with
    | false =>
      obtain rfl := Except.ok.inj h
      rfl
    | true =>
      cases hreplace : replace i ps ws with
      | error e =>
        rw [hreplace] at h
        cases h
      | ok ws' =>
        rw [hreplace] at h
        obtain rfl := Except.ok.inj h
        exact length_replace hreplace

/-- The windows from `i` on, `k` of them, where the image goes on behind them. -/
theorem applyLoop_patched (i k : Nat) (count : BitVec 32) (ws : List (BitVec 16))
    (hfit : i + k + ps.length ≤ ws.length) :
    ∃ c ws', Patched ps (List.range' i k) ws c ws' ∧
      applyLoop ps (i + k) i count ws = .ok (count + BitVec.ofNat 32 c, ws') := by
  induction k generalizing i ws count with
  | zero =>
    refine ⟨0, ws, .done, ?_⟩
    rw [applyLoop, if_neg (by omega)]
    exact congrArg (fun n => Except.ok (n, ws)) (BitVec.add_zero count).symm
  | succ k ih =>
    have hlast : i + (k + 1) = i + 1 + k := by omega
    rw [applyLoop, if_pos (by omega), List.range'_succ, hlast]
    by_cases h : MatchesAt ps ws i
    · rw [applyRound_hit (by omega) h]
      obtain ⟨c, ws', hpatched, hloop⟩ :=
        ih (i + 1) (count + 1) (replaced ps i ws) (by rw [length_replaced]; omega)
      refine ⟨c + 1, ws', .hit h (replaced_iff.mpr rfl) hpatched, hloop.trans ?_⟩
      rw [WordField.add_ofNat_succ]
    · rw [applyRound_miss (by omega) h]
      obtain ⟨c, ws', hpatched, hloop⟩ := ih (i + 1) count ws (by omega)
      exact ⟨c, ws', .miss h hpatched, hloop⟩

/-- Where the loop is to go on behind the end of the image, it leaves the image. -/
theorem applyLoop_outside {lastStart : Nat} (hne : ps ≠ []) (i : Nat) (count : BitVec 32)
    (ws : List (BitVec 16)) (hlast : ws.length < lastStart) (hi : i ≤ ws.length) :
    ∃ e, applyLoop ps lastStart i count ws = .error e := by
  induction hn : ws.length - i generalizing i ws count with
  | zero =>
    obtain ⟨p, ps, rfl⟩ := List.exists_cons_of_ne_nil hne
    have hend : ws[i]? = none := List.getElem?_eq_none (by omega)
    refine ⟨.undefinedBehaviour, ?_⟩
    rw [applyLoop, if_pos (by omega), applyRound, find, hend]
    rfl
  | succ n ih =>
    rw [applyLoop, if_pos (by omega)]
    cases hround : applyRound ps i count ws with
    | error e => exact ⟨e, rfl⟩
    | ok r =>
      have hlen := length_applyRound hround
      exact ih (i + 1) r.1 r.2 (by omega) (by omega) (by omega)

end rounds

/-! ## 7. All windows -/

section all
variable {ps : List PatchLine} {ws ws' ws'' : List (BitVec 16)} {c c' : Nat} {is : List Nat}

/-- The windows tried, and what they leave, are determined. -/
theorem Patched.unique (h : Patched ps is ws c ws') (h' : Patched ps is ws c' ws'') :
    c = c' ∧ ws' = ws'' := by
  induction h generalizing c' with
  | done =>
    cases h' with
    | done => exact ⟨rfl, rfl⟩
  | hit hmatch hreplaced _ ih =>
    cases h' with
    | hit _ hreplaced' hrest =>
      obtain rfl := (replaced_iff.mp hreplaced).trans (replaced_iff.mp hreplaced').symm
      obtain ⟨rfl, hend⟩ := ih hrest
      exact ⟨rfl, hend⟩
    | miss hmiss _ => exact absurd hmatch hmiss
  | miss hmiss _ ih =>
    cases h' with
    | hit hmatch _ _ => exact absurd hmatch hmiss
    | miss _ hrest => exact ih hrest

/-- One window more: it matches in what the others have left, or it does not. -/
theorem patched_concat {i : Nat} : Patched ps (is ++ [i]) ws c ws'' ↔
    ∃ c' ws', Patched ps is ws c' ws' ∧
      (MatchesAt ps ws' i ∧ c = c' + 1 ∧ Replaced ps i ws' ws'' ∨
        ¬ MatchesAt ps ws' i ∧ c = c' ∧ ws'' = ws') := by
  constructor
  · intro h
    induction is generalizing ws c with
    | nil =>
      cases h with
      | hit hmatch hreplaced hrest =>
        cases hrest
        exact ⟨0, _, .done, .inl ⟨hmatch, rfl, hreplaced⟩⟩
      | miss hmiss hrest =>
        cases hrest
        exact ⟨0, _, .done, .inr ⟨hmiss, rfl, rfl⟩⟩
    | cons j is ih =>
      cases h with
      | hit hmatch hreplaced hrest =>
        obtain ⟨c', ws', hpatched, hlast⟩ := ih hrest
        refine ⟨c' + 1, ws', .hit hmatch hreplaced hpatched, hlast.imp ?_ ?_⟩
        · exact fun h => ⟨h.1, by rw [h.2.1], h.2.2⟩
        · exact fun h => ⟨h.1, by rw [h.2.1], h.2.2⟩
      | miss hmiss hrest =>
        obtain ⟨c', ws', hpatched, hlast⟩ := ih hrest
        exact ⟨c', ws', .miss hmiss hpatched, hlast⟩
  · intro h
    obtain ⟨c', ws', hpatched, hlast⟩ := h
    induction hpatched generalizing c with
    | done =>
      rcases hlast with ⟨hmatch, rfl, hreplaced⟩ | ⟨hmiss, rfl, rfl⟩
      · exact .hit hmatch hreplaced .done
      · exact .miss hmiss .done
    | hit hmatch hreplaced _ ih =>
      rcases hlast with ⟨hlast, rfl, hend⟩ | ⟨hlast, rfl, hend⟩
      · exact .hit hmatch hreplaced (ih (.inl ⟨hlast, rfl, hend⟩))
      · exact .hit hmatch hreplaced (ih (.inr ⟨hlast, rfl, hend⟩))
    | miss hmiss _ ih => exact .miss hmiss (ih hlast)

/-- **`Apply`**: it does what it is for exactly where the patch is not longer than the image and
    the last window, which it leaves out, does not match (and the count fits in 32 bits). -/
theorem applies_iff (hws : ws.length < 2 ^ 63) (hps : ps.length < 2 ^ 63) :
    Applies ps ws ↔ ps.length ≤ ws.length ∧
      ∃ c ws', Patched ps (List.range (ws.length - ps.length)) ws c ws' ∧
        ¬ MatchesAt ps ws' (ws.length - ps.length) ∧ c < 2 ^ 32 := by
  by_cases hle : ps.length ≤ ws.length
  · have hlast : lastStart ps ws = 0 + (ws.length - ps.length) := by
      rw [lastStart]
      omega
    have hplaces : places ws.length ps.length =
        List.range (ws.length - ps.length) ++ [ws.length - ps.length] := by
      have hcount : ws.length + 1 - ps.length = ws.length - ps.length + 1 := by omega
      rw [places, hcount, List.range_succ]
    obtain ⟨c, ws', hpatched, hloop⟩ :=
      applyLoop_patched 0 (ws.length - ps.length) 0 ws (by omega : _ + ps.length ≤ _)
    rw [← List.range_eq_range'] at hpatched
    have hzero : (0 : BitVec 32) + BitVec.ofNat 32 c = BitVec.ofNat 32 c := BitVec.zero_add _
    rw [← hlast, hzero] at hloop
    rw [and_iff_right hle]
    constructor
    · intro h
      obtain ⟨count, ws'', happly, hall⟩ := h
      obtain ⟨rfl, rfl⟩ := Prod.mk.inj (Except.ok.inj (hloop.symm.trans happly))
      rw [hplaces, patched_concat] at hall
      obtain ⟨c', ws'', hfirst, hwindow⟩ := hall
      obtain ⟨rfl, rfl⟩ := hpatched.unique hfirst
      rw [BitVec.toNat_ofNat] at hwindow
      rcases hwindow with ⟨_, hcount, _⟩ | ⟨hmiss, hcount, _⟩
      · -- the code does not count the last window
        have hmod := Nat.mod_le c (2 ^ 32)
        omega
      · exact ⟨c, ws', hpatched, hmiss, by omega⟩
    · intro h
      obtain ⟨c', ws'', hfirst, hmiss, hlt⟩ := h
      obtain ⟨rfl, rfl⟩ := hpatched.unique hfirst
      refine ⟨BitVec.ofNat 32 c, ws', hloop, ?_⟩
      rw [hplaces, patched_concat, BitVec.toNat_ofNat, Nat.mod_eq_of_lt hlt]
      exact ⟨c, ws', hpatched, .inr ⟨hmiss, rfl, rfl⟩⟩
  · have hlast : ws.length < lastStart ps ws := by
      rw [lastStart]
      omega
    have hne : ps ≠ [] := by
      intro hnil
      rw [hnil] at hle
      exact hle (Nat.zero_le _)
    obtain ⟨e, he⟩ := applyLoop_outside hne 0 0 ws hlast (Nat.zero_le _)
    constructor
    · intro h
      obtain ⟨count, ws', happly, _⟩ := h
      cases he.symm.trans happly
    · exact fun h => absurd h.1 hle

/-- A patch that wants 1 and makes 2 of it. -/
def oneToTwo : List PatchLine := [⟨⟨1, 0xffff⟩, ⟨2, 0xffff⟩⟩]

/-- The image 1, 0: the first of its two windows matches. -/
theorem applies_iff_front : Applies oneToTwo [1, 0] := by
  have hreplaced : Replaced oneToTwo 0 [1, 0] [2, 0] := replaced_iff.mpr (by decide)
  refine (applies_iff (by decide) (by decide)).mpr ⟨by decide, 1, [2, 0], ?_, ?_, by decide⟩
  · exact .hit ((matchesAt_cons rfl).mpr ⟨by decide, matchesAt_nil⟩) hreplaced .done
  · intro h
    exact absurd ((matchesAt_cons rfl).mp h).1 (by decide)

/-- The image 1 is its own last window. -/
theorem not_applies : ¬ ∀ ps ws, ws.length < 2 ^ 63 → ps.length < 2 ^ 63 → Applies ps ws := by
  intro h
  obtain ⟨count, ws', happly, hpatched⟩ := h oneToTwo [1] (by decide) (by decide)
  have hnone : apply oneToTwo [1] = .ok (0, [1]) := by
    rw [apply, applyLoop, if_neg (by decide)]
  obtain ⟨rfl, rfl⟩ := Prod.mk.inj (Except.ok.inj (hnone.symm.trans happly))
  have hmatch : MatchesAt oneToTwo [1] 0 := (matchesAt_cons rfl).mpr ⟨by decide, matchesAt_nil⟩
  cases hpatched with
  | miss hmiss _ => exact hmiss hmatch

end all

end BinPatch

end CraySim
