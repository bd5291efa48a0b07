/-
  Subject:   The compressed index 0175 (k = 4 to 7): the mask and the list of the elements that pass.

  The loop writes behind itself: after `n` elements it has stored at most `n` indices. So it reads
  every element of the operand as it was, also where it stores over it.

  * `PassesTest` -- the tests of the four instructions, as conditions on an element,
  * `passing`, `maskUpTo` -- the list and the mask after some rounds,
  * `indexRound_run`, `compressedIndexInst_run` -- a round, and the loop, go through them,
  * `compressed_index` -- **mask and list are those of the operand as it was**.
-/
import CraySim.VectorShift

namespace CraySim

/-! ## 1. The elements that pass -/

/-- The test of `Vi,VM Vj,Z`, `N`, `P` and `M`. -/
def PassesTest (k : Fin 8) (v : CInt) : Prop :=
  match k.val with
  | 4 => v = 0
  | 5 => v ≠ 0
  | 6 => 0 ≤ v.toInt
  | _ => v.toInt < 0

theorem maskTest_iff {k : Fin 8} (hk : 4 ≤ k.val) (v : CInt) :
    Inst.maskTest k.val v = true ↔ PassesTest k v := by
  obtain ⟨k, hlt⟩ := k
  obtain rfl | rfl | rfl | rfl : k = 4 ∨ k = 5 ∨ k = 6 ∨ k = 7 := by
    simp only at hk
    omega
  · simp [Inst.maskTest, PassesTest]
  · simp [Inst.maskTest, PassesTest]
  · simp [Inst.maskTest, PassesTest, BitVec.slt]
  · simp [Inst.maskTest, PassesTest, BitVec.slt]

/-- The first `n` elements that pass, in order. -/
def passing (p : Fin 64 → Bool) : Nat → List (Fin 64)
  | 0 => []
  | n + 1 => if p (Fin.ofNat 64 n) then passing p n ++ [Fin.ofNat 64 n] else passing p n

/-- The mask of the first `n` elements. -/
def maskUpTo (p : Fin 64 → Bool) : Nat → CInt
  | 0 => 0
  | n + 1 =>
    if p (Fin.ofNat 64 n) then maskUpTo p n ||| (0x8000000000000000 : CInt) >>> n
    else maskUpTo p n

section passing
variable {p : Fin 64 → Bool} {n : Nat}

@[simp] theorem passing_zero : passing p 0 = [] := rfl

theorem passing_succ : passing p (n + 1) =
    if p (Fin.ofNat 64 n) then passing p n ++ [Fin.ofNat 64 n] else passing p n := rfl

@[simp] theorem maskUpTo_zero : maskUpTo p 0 = 0 := rfl

theorem maskUpTo_succ : maskUpTo p (n + 1) =
    if p (Fin.ofNat 64 n) then maskUpTo p n ||| (0x8000000000000000 : CInt) >>> n
    else maskUpTo p n := rfl

theorem mem_passing (hn : n ≤ 64) (e : Fin 64) : e ∈ passing p n ↔ e.val < n ∧ p e = true := by
  induction n with
  | zero => simp
  | succ n ih =>
    have hval : (Fin.ofNat 64 n).val = n := Nat.mod_eq_of_lt (by omega)
    have hlast : e.val < n + 1 ↔ e.val < n ∨ e = Fin.ofNat 64 n := by
      rw [Fin.ext_iff, hval]
      omega
    rw [passing_succ, hlast, or_and_right]
    split
    · next hp =>
      rw [List.mem_append, ih (by omega), List.mem_singleton]
      exact or_congr_right ⟨fun h => ⟨h, h ▸ hp⟩, And.left⟩
    · next hp =>
      rw [ih (by omega)]
      exact ⟨.inl, fun h => h.resolve_right fun h => hp (h.1 ▸ h.2)⟩

theorem pairwise_passing (hn : n ≤ 64) : (passing p n).Pairwise (· < ·) := by
  induction n with
  | zero => exact List.Pairwise.nil
  | succ n ih =>
    have hval : (Fin.ofNat 64 n).val = n := Nat.mod_eq_of_lt (by omega)
    rw [passing_succ]
    split
    · refine List.pairwise_append.mpr ⟨ih (by omega), List.pairwise_singleton _ _, ?_⟩
      intro e he e' he'
      rw [List.mem_singleton.mp he', Fin.lt_def, hval]
      exact ((mem_passing (by omega) e).mp he).1
    · exact ih (by omega)

theorem length_passing_le (p : Fin 64 → Bool) (n : Nat) : (passing p n).length ≤ n := by
  induction n with
  | zero => exact le_rfl
  | succ n ih =>
    rw [passing_succ]
    split
    · rw [List.length_append]
      exact Nat.succ_le_succ ih
    · omega

theorem passing_prefix (p : Fin 64 → Bool) {n m : Nat} (h : n ≤ m) :
    passing p n <+: passing p m := by
  induction m, h using Nat.le_induction with
  | base => exact List.prefix_refl _
  | succ m _ ih =>
    refine ih.trans ?_
    rw [passing_succ]
    split
    · exact List.prefix_append _ _
    · exact List.prefix_refl _

/-- The index stored by a round stands in the whole list where the round puts it. -/
theorem getElem?_passing {m : Nat} (hnm : n < m) (hp : p (Fin.ofNat 64 n) = true) :
    (passing p m)[(passing p n).length]? = some (Fin.ofNat 64 n) := by
  obtain ⟨rest, hrest⟩ := passing_prefix p (Nat.succ_le_of_lt hnm)
  rw [passing_succ, if_pos hp] at hrest
  rw [← hrest]
  simp

/-- The bits of the mask are numbered from the left. -/
theorem getLsbD_maskUpTo (hn : n ≤ 64) (e : Fin 64) :
    (maskUpTo p n).getLsbD (63 - e.val) = decide (e ∈ passing p n) := by
  have hone : ∀ m : Nat, m < 64 →
      ((0x8000000000000000 : CInt) >>> m).getLsbD (63 - e.val) = decide (e.val = m) := by
    intro m hm
    rw [BitVec.getLsbD_ushiftRight, show (0x8000000000000000 : CInt) = BitVec.twoPow 64 63 from rfl,
      BitVec.getLsbD_twoPow]
    have he := e.isLt
    exact Bool.eq_iff_iff.mpr (by simp; omega)
  induction n with
  | zero => simp
  | succ n ih =>
    rw [maskUpTo_succ, passing_succ]
    split
    · rw [BitVec.getLsbD_or, ih (by omega), hone n (by omega), ← Bool.decide_or]
      refine decide_eq_decide.mpr ?_
      rw [List.mem_append, List.mem_singleton, Fin.ext_iff]
      exact or_congr_right (by rw [Fin.val_ofNat, Nat.mod_eq_of_lt (by omega)])
    · exact ih (by omega)

end passing

/-! ## 2. The loop -/

namespace Inst

open Program

section run
variable {pm : Params} {me : Fin pm.cpuCnt} {s : System pm} {f : Fields}

/-- The indices as the loop stores them. -/
def storedIndex (l : List (Fin 64)) (e : Fin 64) : CInt :=
  l[e.val]?.elim 0 fun n => BitVec.ofNat 64 n.val

/-- One round: the mask and the place of the next index. -/
def indexRound (f : Fields) (test : CInt → Bool) (idx : Nat) (r : CInt × Nat) :
    Inst (CInt × Nat) := do
  let e ← element idx
  let c ← cpu
  if test (c.V f.j e) then
    let dst ← element r.2
    write (.V f.i dst (BitVec.ofNat 64 idx))
    pure (r.1 ||| (0x8000000000000000 : CInt) >>> idx, r.2 + 1)
  else pure r

/-- The elements of the operand that pass, as the instruction finds them. -/
def operandPasses (test : CInt → Bool) (c : Cpu) (f : Fields) (e : Fin 64) : Bool :=
  test (c.V f.j e)

/-- The CPU after the rounds up to `n`, of `m` rounds in all. -/
def indexedUpTo (test : CInt → Bool) (f : Fields) (m n : Nat) (c : Cpu) : Cpu :=
  c.storeElements f.i (storedIndex (passing (operandPasses test c f) m))
    (passing (operandPasses test c f) n).length

/-- What a round stores is the next index of the whole list. -/
theorem storedIndex_passing {p : Fin 64 → Bool} {n m : Nat} (hn : n < 64) (hnm : n < m)
    (hp : p (Fin.ofNat 64 n) = true) (hlen : (passing p n).length < 64) :
    storedIndex (passing p m) ⟨(passing p n).length, hlen⟩ = BitVec.ofNat 64 n := by
  rw [storedIndex, getElem?_passing hnm hp, Option.elim_some, Fin.val_ofNat, Nat.mod_eq_of_lt hn]

/-- **One round**: an element behind the indices is read, and its index is stored if it passes. -/
theorem indexRound_run {test : CInt → Bool} {m n : Nat} (hm : m ≤ 64) (hn : n < m) :
    (indexRound f test n (maskUpTo (operandPasses test (s.mCpus me) f) n,
        (passing (operandPasses test (s.mCpus me) f) n).length)).run (handler me)
        (s.modifyCpu me (indexedUpTo test f m n)) =
      (.ok (maskUpTo (operandPasses test (s.mCpus me) f) (n + 1),
        (passing (operandPasses test (s.mCpus me) f) (n + 1)).length),
        s.modifyCpu me (indexedUpTo test f m (n + 1))) := by
  have hlen := length_passing_le (operandPasses test (s.mCpus me) f) n
  have he : (⟨n, by omega⟩ : Fin 64) = Fin.ofNat 64 n :=
    Fin.ext (Nat.mod_eq_of_lt (by omega)).symm
  have hread : test ((indexedUpTo test f m n (s.mCpus me)).V f.j (Fin.ofNat 64 n)) =
      operandPasses test (s.mCpus me) f (Fin.ofNat 64 n) :=
    congrArg test (Cpu.storeElements_behind _ _ _ _ _
      (by rwa [Fin.val_ofNat, Nat.mod_eq_of_lt (by omega)]))
  rw [indexRound, element_bind (by omega), run_cpu_bind, System.modifyCpu_self, he, hread]
  by_cases hp : operandPasses test (s.mCpus me) f (Fin.ofNat 64 n) = true
  · have hnext : (RegWrite.V f.i ⟨(passing (operandPasses test (s.mCpus me) f) n).length,
          by omega⟩ (BitVec.ofNat 64 n)).apply (indexedUpTo test f m n (s.mCpus me)) =
        indexedUpTo test f m (n + 1) (s.mCpus me) := by
      rw [indexedUpTo, indexedUpTo, passing_succ, if_pos hp, List.length_append,
        ← storedIndex_passing (by omega) hn hp]
      exact Cpu.storeElements_succ _ _ _ _ rfl
    rw [if_pos hp, element_bind (by omega), run_write_bind, System.modifyCpu_comp,
      System.modifyCpu_congr hnext, maskUpTo_succ, passing_succ, if_pos hp, if_pos hp, List.length_append]
    rfl
  · rw [if_neg hp, maskUpTo_succ, passing_succ, if_neg hp, if_neg hp]
    have hnext : indexedUpTo test f m (n + 1) (s.mCpus me) = indexedUpTo test f m n (s.mCpus me) := by
      rw [indexedUpTo, indexedUpTo, passing_succ, if_neg hp]
    rw [System.modifyCpu_congr hnext]
    rfl

/-- **The run of the instruction**: the list is in the first elements of `Vi`, and the mask is set. -/
theorem compressedIndexInst_run {test : CInt → Bool} (hvl : (s.mCpus me).VL.toNat ≤ 64) :
    ∃ s', (compressedIndexInst true f test).run (handler me) s = (.ok ⟨1, false⟩, s') ∧
      (s'.mCpus me).V = ((s.mCpus me).storeElements f.i
        (storedIndex (passing (operandPasses test (s.mCpus me) f) (s.mCpus me).VL.toNat))
        (passing (operandPasses test (s.mCpus me) f) (s.mCpus me).VL.toNat).length).V ∧
      (s'.mCpus me).VM =
        maskUpTo (operandPasses test (s.mCpus me) f) (s.mCpus me).VL.toNat := by
  have hvl' : (s.mCpus me).VL ≤ 64 := hvl
  have hstart : s.modifyCpu me (indexedUpTo test f (s.mCpus me).VL.toNat 0) = s := by
    refine Eq.trans (System.modifyCpu_congr ?_) (System.modifyCpu_id s me)
    exact Cpu.storeElements_zero _ _ _
  have hloop := run_foldUpTo (b := fun n => (maskUpTo (operandPasses test (s.mCpus me) f) n,
    (passing (operandPasses test (s.mCpus me) f) n).length)) (s.mCpus me).VL.toNat
      fun n hn => indexRound_run hvl hn
  rw [hstart] at hloop
  refine ⟨((s.modifyCpu me (indexedUpTo test f (s.mCpus me).VL.toNat (s.mCpus me).VL.toNat)).modifyCpu
    me (RegWrite.VM (maskUpTo (operandPasses test (s.mCpus me) f)
      (s.mCpus me).VL.toNat)).apply).modifyCpu me RegWrite.vectorUsed.apply, ?_, ?_, ?_⟩
  · rw [compressedIndexInst, if_pos rfl, run_cpu_bind, crayAssert_bind (decide_eq_true hvl'),
      run_bind]
    refine (Run.bind_apply_ok hloop).trans ?_
    rw [run_write_bind, run_vectorUsed]
  · rw [System.modifyCpu_self, System.modifyCpu_self, System.modifyCpu_self]
    rfl
  · rw [System.modifyCpu_self, System.modifyCpu_self]
    rfl

end run

end Inst

/-! ## 3. The instruction -/

open Inst

/-- **The compressed index**: for every vector length and every choice of registers, the target
    being the operand included, the mask has the bits of the elements of the operand as it was that
    pass the test, the first elements of the target are their indices in order, and every other
    element of every register is as it was. -/
theorem compressed_index {pm : Params} (me : Fin pm.cpuCnt) (s : System pm) (aParcels : CInt)
    (f : Fields) (hf : extractFields aParcels = f) (hgh : f.gh = 0o175) (hk : 4 ≤ f.k.val)
    (hvl : (s.mCpus me).VL.toNat ≤ 64) :
    ∃ s', (decode pm true aParcels).run (handler me) s = (.ok ⟨1, false⟩, s') ∧
      ∃ l : List (Fin 64), l.Pairwise (· < ·) ∧
        (∀ n, n ∈ l ↔ n.val < (s.mCpus me).VL.toNat ∧ PassesTest f.k ((s.mCpus me).V f.j n)) ∧
        (∀ n : Fin 64, (s'.mCpus me).VM.getLsbD (63 - n.val) = decide (n ∈ l)) ∧
        ∀ r (e : Fin 64), (s'.mCpus me).V r e =
          if h : r = f.i ∧ e.val < l.length then BitVec.ofNat 64 l[e.val].val
          else (s.mCpus me).V r e := by
  subst hf
  obtain ⟨s', hrun, hV, hVM⟩ := @compressedIndexInst_run _ me s (extractFields aParcels)
    (maskTest (extractFields aParcels).k.val) hvl
  refine ⟨s', ?_, passing (operandPasses (maskTest (extractFields aParcels).k.val) (s.mCpus me)
    (extractFields aParcels)) (s.mCpus me).VL.toNat, pairwise_passing hvl, fun n => ?_, fun n => ?_,
      fun r e => ?_⟩
  · rw [decode_of_gh hgh rfl]
    rw [decode0175, crayAssert_bind (beq_iff_eq.mpr hgh), if_neg (by omega)]
    exact hrun
  · rw [mem_passing hvl]
    exact and_congr_right fun _ => maskTest_iff hk _
  · rw [hVM]
    exact getLsbD_maskUpTo hvl n
  · rw [hV]
    split
    · next h =>
      obtain ⟨rfl, he⟩ := h
      rw [Cpu.storeElements_V, if_pos he, storedIndex, List.getElem?_eq_getElem he]
      rfl
    · next h =>
      by_cases hr : r = (extractFields aParcels).i
      · rw [hr, Cpu.storeElements_V, if_neg fun he => h ⟨hr, he⟩]
      · rw [Cpu.storeElements_V_ne _ _ _ _ hr]

/-- `V1,VM V1,N` over its own operand: elements 0 and 2 of four are not zero. -/
def indexOperands : System ymp1 :=
  (System.powerOn ymp1).modifyCpu (0 : Fin 1) fun c =>
    { c with VL := 4, V := fun _ e => if e.val % 2 = 0 then 7 else 0 }

theorem compressed_index_over :
    ∃ s', (decode ymp1 true (0o175115 <<< 32)).run (handler (0 : Fin 1)) indexOperands =
        (.ok ⟨1, false⟩, s') ∧
      (s'.mCpus (0 : Fin 1)).VM.getLsbD 62 = false ∧
      (s'.mCpus (0 : Fin 1)).VM.getLsbD 61 = true := by
  obtain ⟨s', hrun, l, -, hmem, hVM, -⟩ := compressed_index (0 : Fin 1) indexOperands
    (0o175115 <<< 32) _ rfl (by decide) (by decide) (by decide)
  refine ⟨s', hrun, (hVM 1).trans (decide_eq_false fun h => ?_), (hVM 2).trans (decide_eq_true ?_)⟩
  · exact ((hmem 1).mp h).2 (by decide)
  · exact (hmem 2).mpr ⟨by decide, fun h => absurd h (by decide)⟩

end CraySim
