/-
  Subject:   The vector floating point instructions against the scalar ones.

  Every vector instruction has a loop of its own. The elements it stores are found here for the
  whole family and compared with the result of the scalar instruction of the same mnemonic.

  * `FloatMnemonic`, `scalarCode`, `vectorMnemonic` -- which instructions share a mnemonic,
  * `vectorInst_run` -- the elements an instruction stores, also over one of its operands,
  * `vector_scalar` -- **element and scalar result agree, except for `H`**: the vector
    instructions do not call the half precision product.
-/
import CraySim.HalfPrecision
import CraySim.InstructionLength

namespace CraySim

/-! ## 1. Vector runs -/

/-- The first `n` elements of a register are stored. -/
def Cpu.storeElements (c : Cpu) (i : Fin 8) (v : Fin 64 → CInt) (n : Nat) : Cpu :=
  { c with V := Function.update c.V i fun e => if e.val < n then v e else c.V i e }

namespace Cpu

variable (c : Cpu) (i : Fin 8) (v : Fin 64 → CInt) (n : Nat)

@[simp] theorem storeElements_S : (c.storeElements i v n).S = c.S := rfl

theorem storeElements_V (e : Fin 64) :
    (c.storeElements i v n).V i e = if e.val < n then v e else c.V i e := by
  simp [storeElements]

theorem storeElements_zero : c.storeElements i v 0 = c := by
  simp [storeElements]

theorem storeElements_V_ne {r : Fin 8} (hr : r ≠ i) : (c.storeElements i v n).V r = c.V r :=
  Function.update_of_ne hr _ _

/-- An element that is not stored yet is as it was, in every register. -/
theorem storeElements_behind (r : Fin 8) {e : Fin 64} (h : n ≤ e.val) :
    (c.storeElements i v n).V r e = c.V r e := by
  by_cases hr : r = i
  · rw [hr, storeElements_V, if_neg (by omega)]
  · rw [storeElements_V_ne _ _ _ _ hr]

theorem storeElements_succ {e : Fin 64} (he : e.val = n) :
    (RegWrite.V i e (v e)).apply (c.storeElements i v n) = c.storeElements i v (n + 1) := by
  have hV : Function.update (Function.update c.V i fun e' => if e'.val < n then v e' else c.V i e')
      i (Function.update (fun e' => if e'.val < n then v e' else c.V i e') e (v e)) =
      Function.update c.V i fun e' => if e'.val < n + 1 then v e' else c.V i e' := by
    rw [Function.update_idem]
    congr 1
    funext e'
    by_cases hee : e' = e
    · rw [hee, Function.update_self, if_pos (by omega)]
    · have hne : e'.val ≠ n := fun h => hee (Fin.ext (h.trans he.symm))
      rw [Function.update_of_ne hee]
      by_cases hlt : e'.val < n
      · rw [if_pos hlt, if_pos (by omega)]
      · rw [if_neg hlt, if_neg (by omega)]
  rw [RegWrite.apply]
  simp only [storeElements, Function.update_self]
  rw [hV]

end Cpu

/-- The machine after the rounds that store the first `n` elements. -/
def System.storeElements {pm : Params} (s : System pm) (me : Fin pm.cpuCnt) (i : Fin 8)
    (v : Fin 64 → CInt) (n : Nat) : System pm :=
  s.modifyCpu me fun c => c.storeElements i v n

section rounds
variable {pm : Params} (s : System pm) (me : Fin pm.cpuCnt) (i : Fin 8) (v : Fin 64 → CInt)

theorem System.storeElements_zero : s.storeElements me i v 0 = s := by
  refine Eq.trans (System.modifyCpu_congr ?_) (System.modifyCpu_id s me)
  exact Cpu.storeElements_zero _ _ _

@[simp] theorem System.storeElements_mCpus (n : Nat) :
    (s.storeElements me i v n).mCpus me = (s.mCpus me).storeElements i v n :=
  System.modifyCpu_self _ _ _

theorem System.storeElements_succ (n : Nat) {e : Fin 64} (he : e.val = n) :
    (s.storeElements me i v n).modifyCpu me (RegWrite.V i e (v e)).apply =
      s.storeElements me i v (n + 1) := by
  rw [System.storeElements, System.modifyCpu_comp]
  exact System.modifyCpu_congr (Cpu.storeElements_succ _ _ _ _ he)

end rounds

namespace Inst

open Program

section run
variable {pm : Params} {me : Fin pm.cpuCnt} {s : System pm} {f : Fields} {aGh : Nat}

theorem run_cpu_bind {α : Type} {k : Cpu → Inst α} :
    (cpu >>= k).run (handler me) s = (k (s.mCpus me)).run (handler me) s := by
  rw [run_bind, Run.bind_apply_ok cpu_run]

theorem run_write (w : RegWrite) :
    (write w).run (handler me) s = (.ok (), s.modifyCpu me w.apply) := rfl

theorem run_write_bind {α : Type} {w : RegWrite} {k : Unit → Inst α} :
    (write w >>= k).run (handler me) s = (k ()).run (handler me) (s.modifyCpu me w.apply) := by
  rw [run_bind, Run.bind_apply_ok (run_write w)]

theorem crayAssert_bind {α : Type} {b : Bool} (hb : b = true) (k : Unit → Inst α) :
    (crayAssert b >>= k) = k () := by
  rw [hb]
  rfl

theorem element_bind {α : Type} {n : Nat} (hn : n < 64) (k : Fin 64 → Inst α) :
    (element n >>= k) = k ⟨n, hn⟩ := by
  rw [element, dif_pos hn]
  rfl

/-- An operation on elements: it reads the `S` registers and the element itself. -/
def Elementwise (op : Cpu → Fin 64 → CInt) : Prop :=
  ∀ c c' e, c'.S = c.S → (∀ r, c'.V r e = c.V r e) → op c' e = op c e

/-- The next element is stored by a round of a loop. -/
theorem run_storeElement {i : Fin 8} {v : Fin 64 → CInt} {n : Nat} {e : Fin 64} (he : e.val = n)
    {g : Cpu → CInt} (hg : g ((s.mCpus me).storeElements i v n) = v e) :
    Program.run (handler me) (cpu >>= fun c => write (.V i e (g c))) (s.storeElements me i v n) =
      (.ok (), s.storeElements me i v (n + 1)) := by
  rw [run_cpu_bind, System.storeElements_mCpus, hg, run_write, System.storeElements_succ _ _ _ _ _ he]

/-- **The registers after a vector instruction**, for an operation that does not see the elements
    that are stored already. -/
theorem vectorInst_state {op : Cpu → Fin 64 → CInt}
    (hop : ∀ n (e : Fin 64), n ≤ e.val →
      op ((s.mCpus me).storeElements f.i (op (s.mCpus me)) n) e = op (s.mCpus me) e)
    (hgh : f.gh = aGh) (hvl : (s.mCpus me).VL.toNat ≤ 64) :
    ∃ s', (vectorInst aGh true f op).run (handler me) s = (.ok ⟨1, false⟩, s') ∧
      (s'.mCpus me).V =
        ((s.mCpus me).storeElements f.i (op (s.mCpus me)) (s.mCpus me).VL.toNat).V := by
  have hvl' : (s.mCpus me).VL ≤ 64 := hvl
  have hround : ∀ n, n < (s.mCpus me).VL.toNat → Program.run (handler me) (do
      let e ← element n
      let c ← cpu
      write (.V f.i e (op c e))) (s.storeElements me f.i (op (s.mCpus me)) n) =
        (.ok (), s.storeElements me f.i (op (s.mCpus me)) (n + 1)) := by
    intro n hn
    rw [element_bind (by omega)]
    exact run_storeElement rfl (hop n ⟨n, by omega⟩ le_rfl)
  have hloop := run_forUpTo _ hround
  rw [System.storeElements_zero] at hloop
  refine ⟨(s.storeElements me f.i (op (s.mCpus me)) (s.mCpus me).VL.toNat).modifyCpu me
    RegWrite.vectorUsed.apply, ?_, ?_⟩
  · rw [vectorInst, crayAssert_bind (beq_iff_eq.mpr hgh), if_pos rfl, run_cpu_bind,
      crayAssert_bind (decide_eq_true hvl'), run_bind, Run.bind_apply_ok hloop, run_write_bind]
    rfl
  · rw [System.modifyCpu_self, System.storeElements_mCpus]
    rfl

/-- **The elements a vector instruction stores**: the operation on the registers as they were, also
    where an operand is the target. -/
theorem vectorInst_run {op : Cpu → Fin 64 → CInt} (hop : Elementwise op) (hgh : f.gh = aGh)
    (hvl : (s.mCpus me).VL.toNat ≤ 64) :
    ∃ s', (vectorInst aGh true f op).run (handler me) s = (.ok ⟨1, false⟩, s') ∧
      ∀ e : Fin 64, e.val < (s.mCpus me).VL.toNat →
        (s'.mCpus me).V f.i e = op (s.mCpus me) e := by
  obtain ⟨s', hrun, hV⟩ := @vectorInst_state _ me s f aGh op
    (fun n e he => hop _ _ _ rfl fun r => Cpu.storeElements_behind _ _ _ _ _ he) hgh hvl
  refine ⟨s', hrun, fun e he => ?_⟩
  rw [hV]
  exact (Cpu.storeElements_V _ _ _ _ e).trans (if_pos he)

theorem scalarInst_run {w : Cpu → RegWrite} (hgh : f.gh = aGh) :
    (scalarInst aGh true f w).run (handler me) s =
      (.ok ⟨1, false⟩, s.modifyCpu me (w (s.mCpus me)).apply) := by
  rw [scalarInst, crayAssert_bind (beq_iff_eq.mpr hgh), if_pos rfl, run_cpu_bind, run_write_bind]
  rfl

end run

end Inst

/-! ## 2. Mnemonics -/

/-- The floating point operations that have a scalar and a vector form. -/
inductive FloatMnemonic where
  | F | H | R | I | add | sub
  deriving DecidableEq

namespace FloatMnemonic

/-- The operation code of the scalar form. -/
def scalarCode : FloatMnemonic → Nat
  | add => 0o062
  | sub => 0o063
  | F => 0o064
  | H => 0o065
  | R => 0o066
  | I => 0o067

/-- The operation of the scalar form. -/
def scalarOp : FloatMnemonic → CFloat → CFloat → CFloat
  | add => CFloat.add
  | sub => CFloat.sub
  | F => CFloat.mul
  | H => halfPrecisionMult
  | R => roundedMult
  | I => reciprocIterate

/-- The operation of the vector forms. -/
def vectorOp : FloatMnemonic → CFloat → CFloat → CFloat
  | H => CFloat.mul
  | m => m.scalarOp

end FloatMnemonic

namespace Fields

variable (f : Fields)

/-- The mnemonic of a vector instruction; 0166 is the integer product `Vi Sj*Vk` in Y mode. -/
def vectorMnemonic (aXMode : Bool) : Option FloatMnemonic :=
  match f.gh with
  | 0o160 | 0o161 => some .F
  | 0o162 | 0o163 => some .H
  | 0o164 | 0o165 => some .R
  | 0o166 => if aXMode then some .I else none
  | 0o167 => some .I
  | 0o170 | 0o171 => some .add
  | 0o172 | 0o173 => some .sub
  | _ => none

/-- The first operand of an element: `Sj` for the even codes, an element of `Vj` for the odd. -/
def vectorOperand (c : Cpu) (e : Fin 64) : CInt :=
  if f.gh % 2 = 0 then c.refSj f.j else c.V f.j e

end Fields

namespace Inst

open Program

section mnemonics
variable {pm : Params} {me : Fin pm.cpuCnt} {s : System pm} {aParcels : CInt}

theorem scalarFloat_run {f : Fields} {op : CFloat → CFloat → CFloat} {aGh : Nat}
    (hgh : f.gh = aGh) :
    ∃ s', (scalarInst aGh true f fun c => .S f.i (floatOp op (c.refSj f.j) (c.refSk f.k))).run
        (handler me) s = (.ok ⟨1, false⟩, s') ∧
      (s'.mCpus me).S f.i = floatOp op ((s.mCpus me).refSj f.j) ((s.mCpus me).refSk f.k) := by
  refine ⟨_, scalarInst_run hgh, ?_⟩
  rw [System.modifyCpu_self]
  exact Function.update_self f.i _ _

theorem scalar_run {m : FloatMnemonic} (hgh : (extractFields aParcels).gh = m.scalarCode) :
    ∃ s', (decode pm true aParcels).run (handler me) s = (.ok ⟨1, false⟩, s') ∧
      (s'.mCpus me).S (extractFields aParcels).i =
        floatOp m.scalarOp ((s.mCpus me).refSj (extractFields aParcels).j)
          ((s.mCpus me).refSk (extractFields aParcels).k) := by
  rw [FloatMnemonic.scalarOp.eq_def]
  cases m with
  | add | sub | F | H | R | I =>
    rw [decode_of_gh hgh rfl]
    exact scalarFloat_run hgh

theorem elementwise_sv (f : Fields) (op : CInt → CInt → CInt) :
    Elementwise fun c e => op (c.refSj f.j) (c.V f.k e) := by
  intro c c' e hS hV
  simp only [Cpu.refSj, hS, hV]

theorem elementwise_vv (f : Fields) (op : CInt → CInt → CInt) :
    Elementwise fun c e => op (c.V f.j e) (c.V f.k e) := by
  intro c c' e _ hV
  simp only [hV]

/-- The elements of a vector instruction with `Sj`. -/
theorem vectorSV_run {f : Fields} {op : CFloat → CFloat → CFloat} {aGh : Nat} (hgh : f.gh = aGh)
    (heven : aGh % 2 = 0) (hvl : (s.mCpus me).VL.toNat ≤ 64) :
    ∃ s', (vectorSV true f aGh (floatOp op)).run (handler me) s = (.ok ⟨1, false⟩, s') ∧
      ∀ e : Fin 64, e.val < (s.mCpus me).VL.toNat → (s'.mCpus me).V f.i e =
        floatOp op (f.vectorOperand (s.mCpus me) e) ((s.mCpus me).V f.k e) := by
  obtain ⟨s', hrun, hV⟩ := vectorInst_run (elementwise_sv f (floatOp op)) hgh hvl
  refine ⟨s', hrun, fun e he => ?_⟩
  rw [hV e he, Fields.vectorOperand, hgh, if_pos heven]

/-- The elements of a vector instruction with `Vj`. -/
theorem vectorVV_run {f : Fields} {op : CFloat → CFloat → CFloat} {aGh : Nat} (hgh : f.gh = aGh)
    (hodd : ¬ aGh % 2 = 0) (hvl : (s.mCpus me).VL.toNat ≤ 64) :
    ∃ s', (vectorVV true f aGh (floatOp op)).run (handler me) s = (.ok ⟨1, false⟩, s') ∧
      ∀ e : Fin 64, e.val < (s.mCpus me).VL.toNat → (s'.mCpus me).V f.i e =
        floatOp op (f.vectorOperand (s.mCpus me) e) ((s.mCpus me).V f.k e) := by
  obtain ⟨s', hrun, hV⟩ := vectorInst_run (elementwise_vv f (floatOp op)) hgh hvl
  refine ⟨s', hrun, fun e he => ?_⟩
  rw [hV e he, Fields.vectorOperand, hgh, if_neg hodd]

/-- **The elements of every vector instruction with a mnemonic.** -/
theorem vector_run {m : FloatMnemonic}
    (hm : (extractFields aParcels).vectorMnemonic (s.mCpus me).XMode = some m)
    (hvl : (s.mCpus me).VL.toNat ≤ 64) :
    ∃ s', (decode pm true aParcels).run (handler me) s = (.ok ⟨1, false⟩, s') ∧
      ∀ e : Fin 64, e.val < (s.mCpus me).VL.toNat →
        (s'.mCpus me).V (extractFields aParcels).i e =
          floatOp m.vectorOp ((extractFields aParcels).vectorOperand (s.mCpus me) e)
            ((s.mCpus me).V (extractFields aParcels).k e) := by
  have hSV := fun op aGh => @vectorSV_run pm me s (extractFields aParcels) op aGh
  have hVV := fun op aGh => @vectorVV_run pm me s (extractFields aParcels) op aGh
  rw [FloatMnemonic.vectorOp.eq_def]
  generalize hn : (extractFields aParcels).gh = n at hSV hVV
  have hx : n = 0o166 → (s.mCpus me).XMode = true := by
    rintro rfl
    by_contra hy
    rw [Fields.vectorMnemonic, hn, Bool.eq_false_iff.mpr hy] at hm
    cases hm
  rw [Fields.vectorMnemonic, hn] at hm
  split at hm
  · cases hm
    rw [decode_of_gh hn rfl]
    exact hSV _ _ rfl rfl hvl
  · cases hm
    rw [decode_of_gh hn rfl]
    exact hVV _ _ rfl (by decide) hvl
  · cases hm
    rw [decode_of_gh hn rfl]
    exact hSV _ _ rfl rfl hvl
  · cases hm
    rw [decode_of_gh hn rfl]
    exact hVV _ _ rfl (by decide) hvl
  · cases hm
    rw [decode_of_gh hn rfl]
    exact hSV _ _ rfl rfl hvl
  · cases hm
    rw [decode_of_gh hn rfl]
    exact hVV _ _ rfl (by decide) hvl
  · rw [if_pos (hx rfl)] at hm
    cases hm
    rw [decode_of_gh hn rfl]
    change ∃ s', (decode0166 true (extractFields aParcels)).run (handler me) s = _ ∧ _
    rw [decode0166, run_cpu_bind, if_pos (hx rfl)]
    exact hSV _ _ rfl rfl hvl
  · cases hm
    rw [decode_of_gh hn rfl]
    exact hVV _ _ rfl (by decide) hvl
  · cases hm
    rw [decode_of_gh hn rfl]
    exact hSV _ _ rfl rfl hvl
  · cases hm
    rw [decode_of_gh hn rfl]
    exact hVV _ _ rfl (by decide) hvl
  · cases hm
    rw [decode_of_gh hn rfl]
    exact hSV _ _ rfl rfl hvl
  · cases hm
    rw [decode_of_gh hn rfl]
    exact hVV _ _ rfl (by decide) hvl
  · cases hm

end mnemonics

end Inst

/-! ## 3. Elements and scalar results -/

open Inst CFloat in
/-- **The vector instructions against the scalar ones**: for every machine, window and vector
    length, an element and the result of the scalar instruction with the same mnemonic and the same
    operands are the same word, unless the mnemonic is `H`; then they are exactly where half
    precision has nothing to round. -/
theorem vector_scalar {pm : Params} (me : Fin pm.cpuCnt) (s t : System pm) (aVector aScalar : CInt)
    {m : FloatMnemonic}
    (hm : (extractFields aVector).vectorMnemonic (s.mCpus me).XMode = some m)
    (hgh : (extractFields aScalar).gh = m.scalarCode) (hvl : (s.mCpus me).VL.toNat ≤ 64) :
    ∃ s' t', (decode pm true aVector).run (handler me) s = (.ok ⟨1, false⟩, s') ∧
      (decode pm true aScalar).run (handler me) t = (.ok ⟨1, false⟩, t') ∧
      ∀ e : Fin 64, e.val < (s.mCpus me).VL.toNat → ∀ a b : CInt,
        (extractFields aVector).vectorOperand (s.mCpus me) e = a →
        (s.mCpus me).V (extractFields aVector).k e = b →
        (t.mCpus me).refSj (extractFields aScalar).j = a →
        (t.mCpus me).refSk (extractFields aScalar).k = b →
        ((s'.mCpus me).V (extractFields aVector).i e = (t'.mCpus me).S (extractFields aScalar).i ↔
          (m = .H → HalfExact ⟨a⟩ ⟨b⟩)) := by
  obtain ⟨s', hvec, hV⟩ := vector_run hm hvl
  obtain ⟨t', hscal, hS⟩ := @scalar_run pm me t aScalar m hgh
  refine ⟨s', t', hvec, hscal, ?_⟩
  rintro e he a b ha hb ha' hb'
  rw [hV e he, hS, ha, hb, ha', hb']
  by_cases hH : m = .H
  · have hwords : ∀ x y : CFloat, x.value = y.value ↔ x = y := fun x y =>
      ⟨fun h => congrArg CFloat.mk h, fun h => congrArg value h⟩
    rw [hH, floatOp, floatOp, FloatMnemonic.vectorOp, FloatMnemonic.scalarOp, hwords,
      mul_eq_half_iff]
    exact ⟨fun h _ => h, fun h => h rfl⟩
  · have hop : m.vectorOp = m.scalarOp := by
      cases m with
      | H => exact absurd rfl hH
      | _ => rfl
    rw [hop]
    exact ⟨fun _ h => absurd h hH, fun _ => rfl⟩

/-- A Y-MP with one processor. -/
abbrev ymp1 : Params := Params.standard .YMP 1 Params.one_lt

/-- `S1` is one, `S2` and the first element of `V2` are the next larger number. -/
def halfOperands : System ymp1 :=
  (System.powerOn ymp1).modifyCpu (0 : Fin 1) fun c =>
    { c with
      VL := 1
      S := fun r => if r = 1 then 0x4001800000000000 else 0x4001800000000001
      V := fun _ _ => 0x4001800000000001 }

/-- `V3 S1*HV2` and `S4 S1*HS2`. -/
def vectorHalf : CInt := 0o162312 <<< 32
def scalarHalf : CInt := 0o065412 <<< 32

/-- The vector instruction keeps the last place, the scalar one rounds it off. -/
theorem vector_scalar_half :
    let s' := ((Inst.decode ymp1 true vectorHalf).run (handler (0 : Fin 1)) halfOperands).2
    let t' := ((Inst.decode ymp1 true scalarHalf).run (handler (0 : Fin 1)) halfOperands).2
    (s'.mCpus (0 : Fin 1)).V 3 0 = 0x4001800000000001 ∧
      (t'.mCpus (0 : Fin 1)).S 4 = 0x4001800000000000 := by
  decide

/-- `V3 S1*FV2` and `S4 S1*FS2` agree there. -/
theorem vector_scalar_full :
    ∃ s' t' : System ymp1,
      (Inst.decode ymp1 true (0o160312 <<< 32)).run (handler (0 : Fin 1)) halfOperands =
        (.ok ⟨1, false⟩, s') ∧
      (Inst.decode ymp1 true (0o064412 <<< 32)).run (handler (0 : Fin 1)) halfOperands =
        (.ok ⟨1, false⟩, t') ∧
      (s'.mCpus (0 : Fin 1)).V 3 0 = (t'.mCpus (0 : Fin 1)).S 4 := by
  obtain ⟨s', t', hv, hs, h⟩ := @vector_scalar ymp1 (0 : Fin 1) halfOperands halfOperands
    (0o160312 <<< 32) (0o064412 <<< 32) .F (by decide) (by decide)
    (by decide)
  exact ⟨s', t', hv, hs, (h 0 (by decide) 0x4001800000000000 0x4001800000000001
    (by decide) (by decide) (by decide) (by decide)).mpr
    fun hm => nomatch hm⟩

end CraySim
