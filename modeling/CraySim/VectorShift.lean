/-
  Subject:   The vector shifts 0150 to 0153 against the operand as it was before them.

  The double shifts combine an element with its neighbour while they store into the target. The
  left one reads ahead of what it has stored. The right one reads behind, so over its own operand
  it combines elements that are shifted already.

  * `VectorShift.shifted` -- an element of the result, from the operand as it was,
  * `ShiftsOriginal` -- what an instruction leaves in the vector registers,
  * `ShiftFits` -- the condition under which it does,
  * `vector_shift_iff` -- **the instructions shift the original operand exactly there**,
  * `scalar_shifts` -- the shifts of words, and the scalar double shifts 0056 and 0057.
-/
import CraySim.VectorFloat

namespace CraySim

/-! ## 1. Shifted words -/

namespace Inst

theorem shiftLeft_eq (a : CInt) (k : CAddr) : shiftLeft a k = a <<< k.toNat := by
  rw [shiftLeft]
  split
  · exact (BitVec.shiftLeft_eq_zero ‹_›).symm
  · rfl

theorem shiftRight_eq (a : CInt) (k : CAddr) : shiftRight a k = a >>> k.toNat := by
  rw [shiftRight]
  split
  · exact (BitVec.ushiftRight_eq_zero ‹_›).symm
  · rfl

/-- A double shift to the right is a shift of the pair. -/
theorem doubleShiftRight_eq (a b : CInt) (k : CAddr) :
    doubleShiftRight a b k = ((a ++ b) >>> k.toNat).setWidth 64 := by
  apply BitVec.eq_of_getLsbD_eq
  intro x hx
  have hpair : (((a ++ b) >>> k.toNat).setWidth 64).getLsbD x =
      if k.toNat + x < 64 then b.getLsbD (k.toNat + x) else a.getLsbD (k.toNat + x - 64) := by
    rw [BitVec.getLsbD_setWidth, decide_eq_true hx, Bool.true_and, BitVec.getLsbD_ushiftRight,
      BitVec.getLsbD_append]
  rw [hpair, doubleShiftRight]
  by_cases h128 : 128 ≤ k.toNat
  · rw [if_pos h128, if_neg (by omega), BitVec.getLsbD_of_ge a _ (by omega)]
    exact BitVec.getLsbD_zero
  rw [if_neg h128]
  by_cases h64 : 64 ≤ k.toNat
  · rw [if_pos h64, if_neg (by omega), BitVec.getLsbD_ushiftRight]
    congr 1
    omega
  rw [if_neg h64]
  by_cases h0 : k = 0
  · rw [if_pos h0, h0]
    simp [hx]
  rw [if_neg h0, BitVec.getLsbD_or, BitVec.getLsbD_ushiftRight, BitVec.getLsbD_shiftLeft]
  by_cases hlow : k.toNat + x < 64
  · rw [if_pos hlow, decide_eq_true (show x < 64 - k.toNat by omega)]
    simp
  · rw [if_neg hlow, BitVec.getLsbD_of_ge b _ (by omega), decide_eq_true hx,
      decide_eq_false (show ¬ x < 64 - k.toNat by omega)]
    simp only [Bool.not_false, Bool.true_and, Bool.false_or]
    congr 1
    omega

/-- A double shift to the left is a shift of the pair. -/
theorem doubleShiftLeft_eq (a b : CInt) (k : CAddr) :
    doubleShiftLeft a b k = ((a ++ b) <<< k.toNat).extractLsb' 64 64 := by
  apply BitVec.eq_of_getLsbD_eq
  intro x hx
  have hpair : (((a ++ b) <<< k.toNat).extractLsb' 64 64).getLsbD x =
      (!decide (64 + x < k.toNat) && if 64 + x - k.toNat < 64 then b.getLsbD (64 + x - k.toNat)
        else a.getLsbD (64 + x - k.toNat - 64)) := by
    rw [BitVec.getLsbD_extractLsb', decide_eq_true hx, Bool.true_and, BitVec.getLsbD_shiftLeft,
      decide_eq_true (show 64 + x < 64 + 64 by omega), Bool.true_and, BitVec.getLsbD_append]
  rw [hpair, doubleShiftLeft]
  by_cases h128 : 128 ≤ k.toNat
  · rw [if_pos h128, decide_eq_true (show 64 + x < k.toNat by omega)]
    exact BitVec.getLsbD_zero
  rw [if_neg h128]
  by_cases h64 : 64 ≤ k.toNat
  · rw [if_pos h64, BitVec.getLsbD_shiftLeft, decide_eq_true hx, if_pos (by omega)]
    by_cases hin : 64 + x < k.toNat
    · rw [decide_eq_true hin, decide_eq_true (show x < k.toNat - 64 by omega)]
      rfl
    · rw [decide_eq_false hin, decide_eq_false (show ¬ x < k.toNat - 64 by omega),
        show x - (k.toNat - 64) = 64 + x - k.toNat by omega]
      rfl
  rw [if_neg h64, decide_eq_false (show ¬ 64 + x < k.toNat by omega)]
  by_cases h0 : k = 0
  · rw [if_pos h0, h0]
    simp
  rw [if_neg h0, BitVec.getLsbD_or, BitVec.getLsbD_ushiftRight, BitVec.getLsbD_shiftLeft,
    decide_eq_true hx]
  by_cases hlow : x < k.toNat
  · rw [decide_eq_true hlow, if_pos (by omega), show 64 + x - k.toNat = 64 - k.toNat + x by omega]
    rfl
  · rw [decide_eq_false hlow, if_neg (by omega), BitVec.getLsbD_of_ge b _ (by omega),
      show 64 + x - k.toNat - 64 = x - k.toNat by omega]
    simp

theorem zero_pair_ushiftRight (b : CInt) (k : Nat) :
    (((0 : CInt) ++ b) >>> k).setWidth 64 = b >>> k := by
  apply BitVec.eq_of_toNat_eq
  rw [BitVec.toNat_setWidth, BitVec.toNat_ushiftRight, BitVec.toNat_ushiftRight,
    BitVec.toNat_append]
  have hb : b.toNat >>> k < 2 ^ 64 := by
    rw [Nat.shiftRight_eq_div_pow]
    exact lt_of_le_of_lt (Nat.div_le_self _ _) b.isLt
  have hzero : (0 : CInt).toNat <<< 64 ||| b.toNat = b.toNat := by simp
  rw [hzero, Nat.mod_eq_of_lt hb]

/-- Only the bits that a double shift moves out of its first word count. -/
theorem pair_ushiftRight_inj (a a' b : CInt) (k : Nat) :
    ((a ++ b) >>> k).setWidth 64 = ((a' ++ b) >>> k).setWidth 64 ↔
      ∀ x < 64, k ≤ x + 64 → x < k → a.getLsbD x = a'.getLsbD x := by
  have hbit : ∀ (w : CInt) (x : Nat), x < 64 → (((w ++ b) >>> k).setWidth 64).getLsbD x =
      if k + x < 64 then b.getLsbD (k + x) else w.getLsbD (k + x - 64) := by
    intro w x hx
    rw [BitVec.getLsbD_setWidth, decide_eq_true hx, Bool.true_and, BitVec.getLsbD_ushiftRight,
      BitVec.getLsbD_append]
  constructor
  · intro heq x hx hk hxk
    have hone := congrArg (fun w => w.getLsbD (x + 64 - k)) heq
    rw [hbit a _ (by omega), hbit a' _ (by omega), if_neg (by omega), if_neg (by omega),
      show k + (x + 64 - k) - 64 = x by omega] at hone
    exact hone
  · intro hbits
    apply BitVec.eq_of_getLsbD_eq
    intro x hx
    rw [hbit a x hx, hbit a' x hx]
    split
    · rfl
    · by_cases hin : k + x - 64 < 64
      · exact hbits _ hin (by omega) (by omega)
      · rw [BitVec.getLsbD_of_ge a _ (by omega), BitVec.getLsbD_of_ge a' _ (by omega)]

end Inst

/-! ## 2. The results of the instructions -/

/-- The vector shifts. -/
inductive VectorShift where
  | left | right | doubleLeft | doubleRight
  deriving DecidableEq

/-- The element before; a zero stands before the first. -/
def previousElement (v : Fin 64 → CInt) (e : Fin 64) : CInt :=
  if e.val = 0 then 0 else v ⟨e.val - 1, by omega⟩

/-- The element behind in a vector of `vl` elements; a zero stands behind the last. -/
def nextElement (v : Fin 64 → CInt) (vl : Nat) (e : Fin 64) : CInt :=
  if h : e.val + 1 < 64 then if e.val + 1 < vl then v ⟨e.val + 1, h⟩ else 0 else 0

theorem nextElement_of_lt (v : Fin 64 → CInt) {vl : Nat} {e : Fin 64} (h : e.val + 1 < 64)
    (hvl : e.val + 1 < vl) : nextElement v vl e = v ⟨e.val + 1, h⟩ := by
  rw [nextElement, dif_pos h, if_pos hvl]

theorem nextElement_last (v : Fin 64 → CInt) {vl : Nat} {e : Fin 64} (hvl : vl ≤ e.val + 1) :
    nextElement v vl e = 0 := by
  rw [nextElement]
  split
  · exact if_neg (by omega)
  · rfl

namespace VectorShift

/-- The operation code. -/
def code : VectorShift → Nat
  | left => 0o150
  | right => 0o151
  | doubleLeft => 0o152
  | doubleRight => 0o153

/-- An element of the result: the operand shifted, alone or as a pair with its neighbour. -/
def shifted (op : VectorShift) (v : Fin 64 → CInt) (vl k : Nat) (e : Fin 64) : CInt :=
  match op with
  | left => v e <<< k
  | right => v e >>> k
  | doubleLeft => ((v e ++ nextElement v vl e) <<< k).extractLsb' 64 64
  | doubleRight => ((previousElement v e ++ v e) >>> k).setWidth 64

/-- How the instruction ends: the left double shift of no elements is undocumented. -/
def outcome (op : VectorShift) (c : Cpu) : Except Exn Decoded :=
  if op = doubleLeft ∧ c.VL = 0 ∧ c.mThrowOnUnknown = true then .error .undocumentedInstError
  else .ok ⟨1, false⟩

end VectorShift

/-- The target holds the shifted operand, and no other element has changed. -/
def ShiftsOriginal (op : VectorShift) (f : Fields) (c c' : Cpu) : Prop :=
  ∀ r (e : Fin 64), c'.V r e =
    if r = f.i ∧ e.val < c.VL.toNat then
      op.shifted (c.V f.j) c.VL.toNat (c.refAk f.k).toNat e
    else c.V r e

/-- The bits of `b` that a shift by `k` moves into the next element are also those that it moves
    into `b` from the pair of `a` and `b`. -/
def ShiftRepeats (a b : CInt) (k : Nat) : Prop :=
  ∀ x < 64, k ≤ x + 64 → x < k → b.getLsbD x = (a ++ b).getLsbD (x + k)

/-- Where the instructions shift the original operand: the right double shift stores an element
    even when there is none, and over its own operand it has already shifted the element before. -/
def ShiftFits (op : VectorShift) (f : Fields) (c : Cpu) : Prop :=
  op = .doubleRight →
    if c.VL = 0 then c.V f.i 0 = c.V f.j 0 >>> (c.refAk f.k).toNat
    else f.i = f.j → ∀ e : Fin 64, e.val + 1 < c.VL.toNat →
      ShiftRepeats (previousElement (c.V f.j) e) (c.V f.j e) (c.refAk f.k).toNat

/-! ## 3. Runs of the instructions -/

namespace Inst

open Program

/-- The elements that the right double shift stores, one after the other. -/
def storedRight (f : Fields) (c : Cpu) : Nat → CInt
  | 0 => doubleShiftRight 0 (c.V f.j 0) (c.refAk f.k)
  | n + 1 =>
    doubleShiftRight (if f.i = f.j then storedRight f c n else c.V f.j (Fin.ofNat 64 n))
      (c.V f.j (Fin.ofNat 64 (n + 1))) (c.refAk f.k)

section run
variable {pm : Params} {me : Fin pm.cpuCnt} {s : System pm} {f : Fields}

theorem crayUndocumented_run_bind {α : Type} {b : Bool} (k : Unit → Inst α)
    (h : b = true ∨ (s.mCpus me).mThrowOnUnknown = false) :
    (crayUndocumented b >>= k).run (handler me) s = (k ()).run (handler me) s := by
  have hcond : (!b && (s.mCpus me).mThrowOnUnknown) = false := by
    obtain h | h := h <;> simp [h]
  have hrun : (crayUndocumented b).run (handler me) s = (.ok (), s) := by
    rw [crayUndocumented, run_cpu_bind, hcond]
    rfl
  rw [run_bind, Run.bind_apply_ok hrun]

/-- An undocumented instruction ends here where the machine throws on unknown ones. -/
theorem crayUndocumented_run_throw {α : Type} (k : Unit → Inst α)
    (h : (s.mCpus me).mThrowOnUnknown = true) :
    (crayUndocumented false >>= k).run (handler me) s = (.error .undocumentedInstError, s) := by
  have hrun : (crayUndocumented false).run (handler me) s = (.error .undocumentedInstError, s) := by
    rw [crayUndocumented, run_cpu_bind, h]
    rfl
  rw [run_bind, Run.bind_apply_error hrun]

/-- The next element is stored, and the instruction goes on. -/
theorem run_storeElement_bind {α : Type} {i : Fin 8} {v : Fin 64 → CInt} {n : Nat} {e : Fin 64}
    (he : e.val = n) {g : Cpu → CInt} (hg : g ((s.mCpus me).storeElements i v n) = v e)
    (k : Unit → Inst α) :
    Program.run (handler me) (cpu >>= fun c => write (.V i e (g c)) >>= k)
        (s.storeElements me i v n) =
      (k ()).run (handler me) (s.storeElements me i v (n + 1)) := by
  rw [run_cpu_bind, System.storeElements_mCpus, hg, run_write_bind,
    System.storeElements_succ _ _ _ _ _ he]

theorem run_vectorUsed :
    (write .vectorUsed >>= fun _ => next 1).run (handler me) s =
      (.ok ⟨1, false⟩, s.modifyCpu me RegWrite.vectorUsed.apply) := by
  rw [run_write_bind]
  rfl

theorem vectorShift_run {shift : CInt → CAddr → CInt} {aGh : Nat} (hgh : f.gh = aGh)
    (hvl : (s.mCpus me).VL.toNat ≤ 64) :
    ∃ s', (vectorInst aGh true f fun c e => shift (c.V f.j e) (c.refAk f.k)).run (handler me) s =
        (.ok ⟨1, false⟩, s') ∧
      (s'.mCpus me).V = ((s.mCpus me).storeElements f.i
        (fun e => shift ((s.mCpus me).V f.j e) ((s.mCpus me).refAk f.k)) (s.mCpus me).VL.toNat).V :=
  vectorInst_state (fun n _ he =>
    congrArg (shift · ((s.mCpus me).refAk f.k)) (Cpu.storeElements_behind _ _ _ n f.j he)) hgh hvl

/-- The elements of the left double shift. -/
def storedLeft (f : Fields) (c : Cpu) : Fin 64 → CInt :=
  VectorShift.doubleLeft.shifted (c.V f.j) c.VL.toNat (c.refAk f.k).toNat

/-- A round of the left double shift, which reads ahead of what it stores. -/
theorem run_shiftLeftRound {n : Nat} (hvl : (s.mCpus me).VL.toNat ≤ 64)
    (hn : n < (s.mCpus me).VL.toNat - 1) :
    Program.run (handler me) (do
      let e ← element n
      let e' ← element (n + 1)
      let c ← cpu
      write (.V f.i e (doubleShiftLeft (c.V f.j e) (c.V f.j e') (c.refAk f.k))))
        (s.storeElements me f.i (storedLeft f (s.mCpus me)) n) =
      (.ok (), s.storeElements me f.i (storedLeft f (s.mCpus me)) (n + 1)) := by
  rw [element_bind (by omega), element_bind (by omega)]
  refine run_storeElement rfl ?_
  rw [Cpu.storeElements_behind _ _ _ _ _ le_rfl,
    Cpu.storeElements_behind _ _ _ _ _ (Nat.le_succ n), doubleShiftLeft_eq, storedLeft,
    VectorShift.shifted,
    nextElement_of_lt _ (by simpa using (by omega : n + 1 < 64)) (by simpa using by omega)]
  rfl

theorem decode0152_run (hgh : f.gh = 0o152) (hvl : (s.mCpus me).VL.toNat ≤ 64)
    (hthrow : (s.mCpus me).VL ≠ 0 ∨ (s.mCpus me).mThrowOnUnknown = false) :
    ∃ s', (decode0152 true f).run (handler me) s = (.ok ⟨1, false⟩, s') ∧
      (s'.mCpus me).V = ((s.mCpus me).storeElements f.i (storedLeft f (s.mCpus me))
        (s.mCpus me).VL.toNat).V := by
  have hvl' : (s.mCpus me).VL ≤ 64 := hvl
  refine ⟨(s.storeElements me f.i (storedLeft f (s.mCpus me)) (s.mCpus me).VL.toNat).modifyCpu me
    RegWrite.vectorUsed.apply, ?_, ?_⟩
  · rw [decode0152, crayAssert_bind (beq_iff_eq.mpr hgh), if_pos rfl, run_cpu_bind,
      crayUndocumented_run_bind _ (by simpa using hthrow), crayAssert_bind (decide_eq_true hvl')]
    dsimp only
    by_cases hzero : (s.mCpus me).VL = 0
    · rw [hzero, if_neg (by decide), run_vectorUsed, show BitVec.toNat (0 : BitVec 8) = 0 from rfl,
        System.storeElements_zero]
    · have hpos : 0 < (s.mCpus me).VL.toNat := by
        refine Nat.pos_of_ne_zero fun h => hzero (BitVec.eq_of_toNat_eq h)
      rw [if_pos (by simpa using hzero)]
      have hloop := run_forUpTo _ fun n hn => run_shiftLeftRound (f := f) (n := n) hvl hn
      rw [System.storeElements_zero] at hloop
      rw [run_bind, Run.bind_apply_ok hloop, element_bind (by omega),
        run_storeElement_bind rfl, run_vectorUsed, Nat.sub_add_cancel hpos]
      rw [Cpu.storeElements_behind _ _ _ _ _ le_rfl, doubleShiftLeft_eq, storedLeft,
        VectorShift.shifted, nextElement_last _ (by simpa using by omega)]
      rfl
  · rw [System.modifyCpu_self, System.storeElements_mCpus]
    rfl

theorem decode0152_throw (hgh : f.gh = 0o152) (hzero : (s.mCpus me).VL = 0)
    (hthrow : (s.mCpus me).mThrowOnUnknown = true) :
    (decode0152 true f).run (handler me) s = (.error .undocumentedInstError, s) := by
  rw [decode0152, crayAssert_bind (beq_iff_eq.mpr hgh), if_pos rfl, run_cpu_bind,
    show ((s.mCpus me).VL != 0) = false by rw [hzero]; rfl]
  exact crayUndocumented_run_throw _ hthrow

/-- The element before the next one, as a round of the right double shift finds it. -/
theorem storedRight_before {n : Nat} (hn : n < 64) (c : Cpu) :
    (c.storeElements f.i (fun e => storedRight f c e.val) (n + 1)).V f.j ⟨n, hn⟩ =
      if f.i = f.j then storedRight f c n else c.V f.j (Fin.ofNat 64 n) := by
  have hidx : (⟨n, hn⟩ : Fin 64) = Fin.ofNat 64 n := Fin.ext (Nat.mod_eq_of_lt hn).symm
  by_cases hij : f.i = f.j
  · rw [if_pos hij, ← hij, Cpu.storeElements_V, if_pos (Nat.lt_succ_self n)]
  · rw [if_neg hij, ← hidx, Cpu.storeElements_V_ne _ _ _ _ (Ne.symm hij)]

/-- A round of the right double shift, which reads behind what it stores. -/
theorem run_shiftRightRound {n : Nat} (hvl : (s.mCpus me).VL.toNat ≤ 64)
    (hn : n < (s.mCpus me).VL.toNat - 1) :
    Program.run (handler me) (do
      let e ← element n
      let e' ← element (n + 1)
      let c ← cpu
      write (.V f.i e' (doubleShiftRight (c.V f.j e) (c.V f.j e') (c.refAk f.k))))
        (s.storeElements me f.i (fun e => storedRight f (s.mCpus me) e.val) (n + 1)) =
      (.ok (), s.storeElements me f.i (fun e => storedRight f (s.mCpus me) e.val) (n + 1 + 1)) := by
  have hidx : (⟨n + 1, by omega⟩ : Fin 64) = Fin.ofNat 64 (n + 1) :=
    Fin.ext (Nat.mod_eq_of_lt (by omega)).symm
  rw [element_bind (by omega), element_bind (by omega)]
  refine run_storeElement rfl ?_
  rw [storedRight_before (by omega), Cpu.storeElements_behind _ _ _ _ _ le_rfl, storedRight, ← hidx]
  rfl

theorem decode0153_run (hgh : f.gh = 0o153) (hvl : (s.mCpus me).VL.toNat ≤ 64) :
    ∃ s', (decode0153 true f).run (handler me) s = (.ok ⟨1, false⟩, s') ∧
      (s'.mCpus me).V = ((s.mCpus me).storeElements f.i
        (fun e => storedRight f (s.mCpus me) e.val) (max 1 (s.mCpus me).VL.toNat)).V := by
  have hvl' : (s.mCpus me).VL ≤ 64 := hvl
  have hfirst := System.storeElements_succ s me f.i (fun e => storedRight f (s.mCpus me) e.val) 0
    (e := 0) rfl
  rw [System.storeElements_zero] at hfirst
  have hloop := run_forUpTo _ fun n hn => run_shiftRightRound (f := f) (n := n) hvl hn
  refine ⟨(s.storeElements me f.i (fun e => storedRight f (s.mCpus me) e.val)
    ((s.mCpus me).VL.toNat - 1 + 1)).modifyCpu me RegWrite.vectorUsed.apply, ?_, ?_⟩
  · rw [decode0153, crayAssert_bind (beq_iff_eq.mpr hgh), if_pos rfl, run_cpu_bind,
      crayAssert_bind (decide_eq_true hvl'), run_write_bind]
    refine (congrArg _ hfirst).trans ?_
    rw [run_bind, Run.bind_apply_ok hloop, run_vectorUsed]
  · rw [System.modifyCpu_self, System.storeElements_mCpus,
      show max 1 (s.mCpus me).VL.toNat = (s.mCpus me).VL.toNat - 1 + 1 by omega]
    rfl

end run

end Inst

/-! ## 4. The original operand -/

open Inst

section original
variable {f : Fields} {c c' : Cpu}

/-- What is stored as far as the vector goes is the original operand shifted where every element
    is. -/
theorem shiftsOriginal_store_iff {op : VectorShift} {v : Fin 64 → CInt}
    (hV : c'.V = (c.storeElements f.i v c.VL.toNat).V) :
    ShiftsOriginal op f c c' ↔ ∀ e : Fin 64, e.val < c.VL.toNat →
      v e = op.shifted (c.V f.j) c.VL.toNat (c.refAk f.k).toNat e := by
  constructor
  · intro h e he
    have hone := h f.i e
    rwa [hV, Cpu.storeElements_V, if_pos he, if_pos ⟨rfl, he⟩] at hone
  · intro h r e
    rw [hV]
    by_cases hr : r = f.i
    · rw [hr, Cpu.storeElements_V]
      by_cases he : e.val < c.VL.toNat
      · rw [if_pos he, if_pos ⟨rfl, he⟩, h e he]
      · rw [if_neg he, if_neg fun h => he h.2]
    · rw [Cpu.storeElements_V_ne _ _ _ _ hr, if_neg fun h => hr h.1]

theorem shiftsOriginal_of_store {op : VectorShift} (hV : c'.V = (c.storeElements f.i
      (op.shifted (c.V f.j) c.VL.toNat (c.refAk f.k).toNat) c.VL.toNat).V) :
    ShiftsOriginal op f c c' :=
  (shiftsOriginal_store_iff hV).mpr fun _ _ => rfl

/-- Over itself the pair repeats where the shift moves in again what it moved out. -/
theorem shiftRepeats_iff (a b d : CInt) (k : Nat) :
    ((((a ++ b) >>> k).setWidth 64 ++ d) >>> k).setWidth 64 = ((b ++ d) >>> k).setWidth 64 ↔
      ShiftRepeats a b k := by
  rw [pair_ushiftRight_inj]
  refine forall₂_congr fun x hx => forall₂_congr fun _ _ => ?_
  rw [BitVec.getLsbD_setWidth, decide_eq_true hx, Bool.true_and, BitVec.getLsbD_ushiftRight,
    Nat.add_comm k x]
  exact eq_comm

/-- The first element stored has only zeros moved in. -/
theorem storedRight_zero (f : Fields) (c : Cpu) :
    storedRight f c 0 =
      VectorShift.doubleRight.shifted (c.V f.j) c.VL.toNat (c.refAk f.k).toNat 0 :=
  doubleShiftRight_eq _ _ _

/-- Into another register every element is the shifted one. -/
theorem storedRight_of_ne (hij : f.i ≠ f.j) (e : Fin 64) :
    storedRight f c e.val =
      VectorShift.doubleRight.shifted (c.V f.j) c.VL.toNat (c.refAk f.k).toNat e := by
  obtain ⟨n, hn⟩ := e
  cases n with
  | zero => exact storedRight_zero f c
  | succ n =>
    simp only [storedRight, VectorShift.shifted, previousElement]
    rw [if_neg hij, doubleShiftRight_eq, if_neg (Nat.succ_ne_zero n)]
    have hn' : Fin.ofNat 64 n = ⟨n, by omega⟩ := Fin.ext (Nat.mod_eq_of_lt (by omega))
    have hsucc : Fin.ofNat 64 (n + 1) = ⟨n + 1, hn⟩ := Fin.ext (Nat.mod_eq_of_lt hn)
    rw [hn', hsucc]
    rfl

/-- Over the operand, an element is the shifted one where the one before it repeats. -/
theorem storedRight_succ_iff (hij : f.i = f.j) {n : Nat} (hn : n + 1 < 64)
    (hbefore : storedRight f c n = VectorShift.doubleRight.shifted (c.V f.j) c.VL.toNat
      (c.refAk f.k).toNat ⟨n, by omega⟩) :
    storedRight f c (n + 1) = VectorShift.doubleRight.shifted (c.V f.j) c.VL.toNat
        (c.refAk f.k).toNat ⟨n + 1, hn⟩ ↔
      ShiftRepeats (previousElement (c.V f.j) ⟨n, by omega⟩) (c.V f.j ⟨n, by omega⟩)
        (c.refAk f.k).toNat := by
  have hsucc : Fin.ofNat 64 (n + 1) = ⟨n + 1, hn⟩ := Fin.ext (Nat.mod_eq_of_lt hn)
  have hprevious : previousElement (c.V f.j) ⟨n + 1, hn⟩ = c.V f.j ⟨n, by omega⟩ :=
    if_neg (Nat.succ_ne_zero n)
  rw [storedRight, if_pos hij, hbefore, doubleShiftRight_eq, hsucc]
  simp only [VectorShift.shifted]
  rw [hprevious]
  exact shiftRepeats_iff _ _ _ _

/-- All elements stored over the operand are shifted ones exactly where every one but the last
    repeats. -/
theorem storedRight_over_iff (hij : f.i = f.j) (hvl : c.VL.toNat ≤ 64) :
    (∀ e : Fin 64, e.val < c.VL.toNat → storedRight f c e.val =
        VectorShift.doubleRight.shifted (c.V f.j) c.VL.toNat (c.refAk f.k).toNat e) ↔
      ∀ e : Fin 64, e.val + 1 < c.VL.toNat →
        ShiftRepeats (previousElement (c.V f.j) e) (c.V f.j e) (c.refAk f.k).toNat := by
  constructor
  · intro hall e he
    exact (storedRight_succ_iff hij (by omega) (hall e (by omega))).mp
      (hall ⟨e.val + 1, by omega⟩ he)
  · intro hrep ⟨n, hn⟩ hlt
    -- along the stores, each of them reads the one before
    induction n with
    | zero => exact storedRight_zero f c
    | succ n ih =>
      exact (storedRight_succ_iff hij hn (ih (by omega) (by simp only at hlt ⊢; omega))).mpr
        (hrep ⟨n, by omega⟩ hlt)

/-- Of a vector of no elements one is stored: it stays as it was if it is the first one shifted. -/
theorem shiftsOriginal_right_zero (hzero : c.VL.toNat = 0)
    (hV : c'.V = (c.storeElements f.i (fun e => storedRight f c e.val) 1).V) :
    ShiftsOriginal .doubleRight f c c' ↔ c.V f.i 0 = c.V f.j 0 >>> (c.refAk f.k).toNat := by
  have hfirst : storedRight f c 0 = c.V f.j 0 >>> (c.refAk f.k).toNat := by
    rw [storedRight, doubleShiftRight_eq, zero_pair_ushiftRight]
  constructor
  · intro h
    have h0 := h f.i 0
    rw [hV, Cpu.storeElements_V, if_pos (by decide), hzero, if_neg (by simp)] at h0
    rw [← h0]
    exact hfirst
  · intro h r e
    rw [hV, hzero, if_neg (by simp)]
    by_cases hr : r = f.i
    · rw [hr, Cpu.storeElements_V]
      split
      · next he =>
        obtain rfl : e = 0 := Fin.ext (by simpa using he)
        rw [h]
        exact hfirst
      · rfl
    · rw [Cpu.storeElements_V_ne _ _ _ _ hr]

/-- What the right double shift leaves in the registers is the original operand shifted exactly
    where it fits. -/
theorem shiftsOriginal_right_iff (hvl : c.VL.toNat ≤ 64) (hV : c'.V = (c.storeElements f.i
      (fun e => storedRight f c e.val) (max 1 c.VL.toNat)).V) :
    ShiftsOriginal .doubleRight f c c' ↔ ShiftFits .doubleRight f c := by
  have hfits : ShiftFits .doubleRight f c ↔
      if c.VL = 0 then c.V f.i 0 = c.V f.j 0 >>> (c.refAk f.k).toNat
      else f.i = f.j → ∀ e : Fin 64, e.val + 1 < c.VL.toNat →
        ShiftRepeats (previousElement (c.V f.j) e) (c.V f.j e) (c.refAk f.k).toNat :=
    ⟨fun h => h rfl, fun h _ => h⟩
  rw [hfits]
  split
  · next hzero =>
    have hvl0 : c.VL.toNat = 0 := by rw [hzero]; rfl
    rw [hvl0] at hV
    exact shiftsOriginal_right_zero hvl0 hV
  · next hzero =>
    have hpos : 0 < c.VL.toNat := Nat.pos_of_ne_zero fun h => hzero (BitVec.eq_of_toNat_eq h)
    rw [show max 1 c.VL.toNat = c.VL.toNat by omega] at hV
    rw [shiftsOriginal_store_iff hV]
    by_cases hij : f.i = f.j
    · rw [storedRight_over_iff hij hvl]
      exact ⟨fun h _ => h, fun h => h hij⟩
    · exact ⟨fun _ h => absurd h hij, fun _ e _ => storedRight_of_ne hij e⟩

end original

/-- **The vector shifts and the original operand**: for every vector length, shift count and
    choice of registers the instruction ends as `outcome` says; it leaves the original operand
    shifted in the target, and everything else as it was, exactly where `ShiftFits`. -/
theorem vector_shift_iff {pm : Params} (me : Fin pm.cpuCnt) (s : System pm) (aParcels : CInt)
    (op : VectorShift) (hgh : (extractFields aParcels).gh = op.code)
    (hvl : (s.mCpus me).VL.toNat ≤ 64) :
    ∃ s', (decode pm true aParcels).run (handler me) s = (op.outcome (s.mCpus me), s') ∧
      (ShiftsOriginal op (extractFields aParcels) (s.mCpus me) (s'.mCpus me) ↔
        ShiftFits op (extractFields aParcels) (s.mCpus me)) := by
  have hfits : op ≠ .doubleRight → ShiftFits op (extractFields aParcels) (s.mCpus me) :=
    fun hne h => absurd h hne
  cases op with
  | left =>
    obtain ⟨s', hrun, hV⟩ := @vectorShift_run _ me s _ shiftLeft _ hgh hvl
    simp only [shiftLeft_eq] at hV
    rw [decode_of_gh hgh rfl]
    exact ⟨s', hrun, fun _ => hfits (by decide), fun _ => shiftsOriginal_of_store hV⟩
  | right =>
    obtain ⟨s', hrun, hV⟩ := @vectorShift_run _ me s _ shiftRight _ hgh hvl
    simp only [shiftRight_eq] at hV
    rw [decode_of_gh hgh rfl]
    exact ⟨s', hrun, fun _ => hfits (by decide), fun _ => shiftsOriginal_of_store hV⟩
  | doubleLeft =>
    rw [decode_of_gh hgh rfl]
    by_cases hthrow : (s.mCpus me).VL = 0 ∧ (s.mCpus me).mThrowOnUnknown = true
    · refine ⟨s, ?_, fun _ => hfits (by decide), fun _ r e => ?_⟩
      · rw [VectorShift.outcome, if_pos ⟨rfl, hthrow⟩]
        exact decode0152_throw hgh hthrow.1 hthrow.2
      · rw [hthrow.1, if_neg (by simp)]
    · have hruns : (s.mCpus me).VL ≠ 0 ∨ (s.mCpus me).mThrowOnUnknown = false := by
        by_cases hzero : (s.mCpus me).VL = 0
        · exact .inr (Bool.eq_false_iff.mpr fun h => hthrow ⟨hzero, h⟩)
        · exact .inl hzero
      obtain ⟨s', hrun, hV⟩ := @decode0152_run _ me s _ hgh hvl hruns
      rw [VectorShift.outcome, if_neg fun h => hthrow h.2]
      exact ⟨s', hrun, fun _ => hfits (by decide), fun _ => shiftsOriginal_of_store hV⟩
  | doubleRight =>
    obtain ⟨s', hrun, hV⟩ := @decode0153_run _ me s _ hgh hvl
    rw [decode_of_gh hgh rfl]
    exact ⟨s', hrun, shiftsOriginal_right_iff hvl hV⟩

/-- `V1 V1,V1>A2`. -/
def doubleShiftOver : CInt := 0o153112 <<< 32

/-- `V2 V1,V1>A2`. -/
def doubleShiftAway : CInt := 0o153212 <<< 32

/-- Three elements whose lowest bits differ, and a shift by one. -/
def shiftOperands : System ymp1 :=
  (System.powerOn ymp1).modifyCpu (0 : Fin 1) fun c =>
    { c with
      VL := 3
      A := fun _ => 1
      V := fun _ e => if e = 0 then 2 else 0 }

/-- Into another register the double shift fits. -/
theorem vector_shift_iff_away :
    ∃ s', (decode ymp1 true doubleShiftAway).run (handler (0 : Fin 1)) shiftOperands =
        (.ok ⟨1, false⟩, s') ∧
      ShiftsOriginal .doubleRight (extractFields doubleShiftAway) (shiftOperands.mCpus (0 : Fin 1))
        (s'.mCpus (0 : Fin 1)) := by
  obtain ⟨s', hrun, hiff⟩ := vector_shift_iff (0 : Fin 1) shiftOperands doubleShiftAway .doubleRight
    (by decide) (by decide)
  refine ⟨s', hrun, hiff.mpr fun _ => ?_⟩
  rw [if_neg (by decide)]
  exact fun h => absurd h (by decide)

/-- Over its operand the bit that element 0 keeps is moved into element 1 as well. -/
theorem not_shifts_original_over :
    ¬ ∀ {pm : Params} (me : Fin pm.cpuCnt) (s : System pm) (aParcels : CInt) (op : VectorShift),
      (extractFields aParcels).gh = op.code → (s.mCpus me).VL.toNat ≤ 64 →
      ShiftsOriginal op (extractFields aParcels) (s.mCpus me)
        (((decode pm true aParcels).run (handler me) s).2.mCpus me) := by
  intro hall
  have h := @hall ymp1 (0 : Fin 1) shiftOperands doubleShiftOver .doubleRight (by decide)
    (by decide) 1 1
  revert h
  decide

/-! ## 5. The scalar double shifts -/

namespace Inst

section numbers
variable (a b : CInt) (k : CAddr)

theorem toNat_shiftLeft : (shiftLeft a k).toNat = a.toNat * 2 ^ k.toNat % 2 ^ 64 := by
  rw [shiftLeft_eq, BitVec.toNat_shiftLeft, Nat.shiftLeft_eq]

theorem toNat_shiftRight : (shiftRight a k).toNat = a.toNat / 2 ^ k.toNat := by
  rw [shiftRight_eq, BitVec.toNat_ushiftRight, Nat.shiftRight_eq_div_pow]

theorem toNat_pair : (a ++ b).toNat = a.toNat * 2 ^ 64 + b.toNat := by
  rw [BitVec.toNat_append, Nat.shiftLeft_eq, Nat.mul_comm, Nat.two_pow_add_eq_or_of_lt b.isLt]

theorem toNat_doubleShiftLeft : (doubleShiftLeft a b k).toNat =
    (a.toNat * 2 ^ 64 + b.toNat) * 2 ^ k.toNat % 2 ^ 128 / 2 ^ 64 := by
  have hhalf : (a.toNat * 2 ^ 64 + b.toNat) * 2 ^ k.toNat % 2 ^ 128 / 2 ^ 64 < 2 ^ 64 :=
    Nat.div_lt_of_lt_mul (Nat.mod_lt _ (by decide))
  rw [doubleShiftLeft_eq, BitVec.extractLsb'_toNat, BitVec.toNat_shiftLeft, toNat_pair,
    Nat.shiftLeft_eq, Nat.shiftRight_eq_div_pow, Nat.mod_eq_of_lt hhalf]

theorem toNat_doubleShiftRight : (doubleShiftRight a b k).toNat =
    (a.toNat * 2 ^ 64 + b.toNat) / 2 ^ k.toNat % 2 ^ 64 := by
  rw [doubleShiftRight_eq, BitVec.toNat_setWidth, BitVec.toNat_ushiftRight, toNat_pair,
    Nat.shiftRight_eq_div_pow]

end numbers

end Inst

/-- **The shifts of words**, for every amount: the single ones shift a number of 64 bits, the double
    ones return a half of a number of 128 bits shifted. The scalar instructions shift `Si` and `Sj`
    to the left and `Sj` and `Si` to the right, and change nothing else. -/
theorem scalar_shifts {pm : Params} (me : Fin pm.cpuCnt) (s : System pm) (aParcels : CInt)
    (f : Fields) (hf : extractFields aParcels = f) :
    (∀ (a : CInt) (k : CAddr), (shiftLeft a k).toNat = a.toNat * 2 ^ k.toNat % 2 ^ 64 ∧
      (shiftRight a k).toNat = a.toNat / 2 ^ k.toNat) ∧
    (∀ (a b : CInt) (k : CAddr),
      (doubleShiftLeft a b k).toNat =
        (a.toNat * 2 ^ 64 + b.toNat) * 2 ^ k.toNat % 2 ^ 128 / 2 ^ 64 ∧
      (doubleShiftRight a b k).toNat =
        (a.toNat * 2 ^ 64 + b.toNat) / 2 ^ k.toNat % 2 ^ 64) ∧
    (f.gh = 0o056 → ∃ w : CInt,
      (decode pm true aParcels).run (handler me) s =
        (.ok ⟨1, false⟩, s.modifyCpu me (RegWrite.S f.i w).apply) ∧
      w.toNat = (((s.mCpus me).refS f.i).toNat * 2 ^ 64 + ((s.mCpus me).refSj f.j).toNat) *
        2 ^ ((s.mCpus me).refAk f.k).toNat % 2 ^ 128 / 2 ^ 64) ∧
    (f.gh = 0o057 → ∃ w : CInt,
      (decode pm true aParcels).run (handler me) s =
        (.ok ⟨1, false⟩, s.modifyCpu me (RegWrite.S f.i w).apply) ∧
      w.toNat = (((s.mCpus me).refSj f.j).toNat * 2 ^ 64 + ((s.mCpus me).refS f.i).toNat) /
        2 ^ ((s.mCpus me).refAk f.k).toNat % 2 ^ 64) := by
  subst hf
  refine ⟨fun a k => ⟨Inst.toNat_shiftLeft a k, Inst.toNat_shiftRight a k⟩,
    fun a b k => ⟨toNat_doubleShiftLeft a b k, toNat_doubleShiftRight a b k⟩, fun hgh => ?_,
    fun hgh => ?_⟩
  · rw [decode_of_gh hgh rfl]
    exact ⟨_, scalarInst_run hgh, toNat_doubleShiftLeft _ _ _⟩
  · rw [decode_of_gh hgh rfl]
    exact ⟨_, scalarInst_run hgh, toNat_doubleShiftRight _ _ _⟩

/-- `S1 S1,S2<A3` and `S1 S2,S1>A3`, by 70. -/
theorem scalar_shifts_70 : ∃ u v : CInt,
    (decode ymp1 true (0o056123 <<< 32)).run (handler (0 : Fin 1))
        ((System.powerOn ymp1).modifyCpu (0 : Fin 1) fun c => { c with A := fun _ => 70 }) =
      (.ok ⟨1, false⟩, ((System.powerOn ymp1).modifyCpu (0 : Fin 1) fun c =>
        { c with A := fun _ => 70 }).modifyCpu (0 : Fin 1) (RegWrite.S 1 u).apply) ∧
    (decode ymp1 true (0o057123 <<< 32)).run (handler (0 : Fin 1)) (System.powerOn ymp1) =
      (.ok ⟨1, false⟩, (System.powerOn ymp1).modifyCpu (0 : Fin 1) (RegWrite.S 1 v).apply) := by
  obtain ⟨u, hu, -⟩ := (scalar_shifts (0 : Fin 1)
    ((System.powerOn ymp1).modifyCpu (0 : Fin 1) fun c => { c with A := fun _ => 70 })
    (0o056123 <<< 32) _ rfl).2.2.1 (by decide)
  obtain ⟨v, hv, -⟩ := (scalar_shifts (0 : Fin 1) (System.powerOn ymp1) (0o057123 <<< 32) _
    rfl).2.2.2 (by decide)
  exact ⟨u, v, hu, hv⟩

end CraySim
