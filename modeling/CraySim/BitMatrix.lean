/-
  Subject:   The bit matrix products 0070ij6 and 0174ij6.

  A product with the transpose of the matrix has the parity of the operand and row `n` for its bit
  `n`. The loops of both instructions combine the rows instead: bit `n` of their result is the
  parity of column `n`, where the operand has it. The vector form takes its operands from the `S`
  registers, because its loop variable hides the field `j`.

  * `IsProduct` -- the product,
  * `ProductFits` -- where the combined rows are the product,
  * `bitMatrix_iff` -- **the instructions return the product exactly there**.
-/
import CraySim.CompressedIndex
import Mathlib.Data.Nat.Bitwise

namespace XorFold

variable {w : Nat}

/-! ## 1. Parity -/

/-- An odd number of the first `n` are true. -/
def odd (p : Nat → Bool) : Nat → Bool
  | 0 => false
  | n + 1 => odd p n ^^ p n

theorem odd_false {p : Nat → Bool} {n : Nat} (h : ∀ m < n, p m = false) : odd p n = false := by
  induction n with
  | zero => rfl
  | succ n ih =>
    rw [odd, ih fun m hm => h m (by omega), h n (by omega)]
    rfl

theorem odd_single {p : Nat → Bool} {n b : Nat} (hb : b < n) (h : ∀ m < n, m ≠ b → p m = false) :
    odd p n = p b := by
  induction n with
  | zero => omega
  | succ n ih =>
    rw [odd]
    by_cases hbn : b = n
    · rw [hbn, odd_false fun m hm => h m (by omega) (by omega), Bool.false_xor]
    · rw [ih (by omega) fun m hm => h m (by omega), h n (by omega) (by omega), Bool.xor_false]

/-! ## 2. Words -/

/-- The first `n` words combined. -/
def xorUpTo (x : Nat → BitVec w) : Nat → BitVec w
  | 0 => 0
  | n + 1 => xorUpTo x n ^^^ x n

theorem getMsbD_xorUpTo (x : Nat → BitVec w) (n b : Nat) :
    (xorUpTo x n).getMsbD b = odd (fun m => (x m).getMsbD b) n := by
  induction n with
  | zero => simp [xorUpTo, odd]
  | succ n ih => rw [xorUpTo, odd, BitVec.getMsbD_xor, ih]

theorem and_xorUpTo_succ (a : BitVec w) (x : Nat → BitVec w) (n : Nat) :
    (a &&& xorUpTo x n) ^^^ (a &&& x n) = a &&& xorUpTo x (n + 1) := by
  apply BitVec.eq_of_getLsbD_eq
  intro b _
  rw [xorUpTo, BitVec.getLsbD_xor, BitVec.getLsbD_and, BitVec.getLsbD_and, BitVec.getLsbD_and,
    BitVec.getLsbD_xor, Bool.and_xor_distrib_left]

end XorFold

namespace CraySim

open XorFold

/-! ## 1. Products -/

/-- The parity of a word. -/
def parity (x : CInt) : Bool := odd x.getMsbD 64

/-- Bit `n` from the left is the parity of the operand and row `n` of `vl` rows. -/
def IsProduct (rows : Fin 64 → CInt) (vl : Nat) (x r : CInt) : Prop :=
  ∀ n : Fin 64, r.getMsbD n.val = (decide (n.val < vl) && parity (x &&& rows n))

/-- The parity of a column of the first `vl` rows. -/
def columnParity (rows : Fin 64 → CInt) (vl : Nat) (n : Fin 64) : Bool :=
  odd (fun m => (rows (Fin.ofNat 64 m)).getMsbD n.val) vl

/-- Where the columns under the bits of `y` are the product with `x`: a bit of `y` that is set has
    a column with the parity of `x` and its row, and a row at a clear bit of `y` meets `x` in an
    even number of bits. -/
def ProductFits (rows : Fin 64 → CInt) (vl : Nat) (x y : CInt) : Prop :=
  ∀ n : Fin 64,
    if y.getMsbD n.val then columnParity rows vl n = (decide (n.val < vl) && parity (x &&& rows n))
    else n.val < vl → parity (x &&& rows n) = false

/-- The columns that count are those that `x` and `y` have in common. -/
def SameColumns (rows : Fin 64 → CInt) (vl : Nat) (x y : CInt) : Prop :=
  ∀ n : Fin 64, columnParity rows vl n = true → x.getMsbD n.val = y.getMsbD n.val

/-- The rows combined, as the loops leave them. -/
def combinedRows (rows : Fin 64 → CInt) (vl : Nat) : CInt :=
  xorUpTo (fun m => rows (Fin.ofNat 64 m)) vl

section product
variable {rows : Fin 64 → CInt} {vl : Nat}

theorem getMsbD_combinedRows (n : Fin 64) :
    (combinedRows rows vl).getMsbD n.val = columnParity rows vl n :=
  getMsbD_xorUpTo _ _ _

/-- **The combined rows are the product exactly where it fits.** -/
theorem isProduct_iff (x y : CInt) :
    IsProduct rows vl x (y &&& combinedRows rows vl) ↔ ProductFits rows vl x y := by
  refine forall_congr' fun n => ?_
  rw [BitVec.getMsbD_and, getMsbD_combinedRows]
  cases y.getMsbD n.val with
  | true => simp
  | false =>
    rw [if_neg (by decide), Bool.false_and]
    by_cases hn : n.val < vl
    · rw [decide_eq_true hn, Bool.true_and]
      exact ⟨fun h _ => h.symm, fun h => (h hn).symm⟩
    · rw [decide_eq_false hn, Bool.false_and]
      exact ⟨fun _ h => absurd h hn, fun _ => rfl⟩

theorem and_combinedRows_eq_iff (x y : CInt) :
    x &&& combinedRows rows vl = y &&& combinedRows rows vl ↔ SameColumns rows vl x y := by
  constructor
  · intro heq n hn
    have hbit := congrArg (fun r : CInt => r.getMsbD n.val) heq
    simpa only [BitVec.getMsbD_and, getMsbD_combinedRows, hn, Bool.and_true] using hbit
  · intro hsame
    apply BitVec.eq_of_getMsbD_eq
    intro n hn
    have hbit := hsame ⟨n, hn⟩
    rw [BitVec.getMsbD_and, BitVec.getMsbD_and,
      show (combinedRows rows vl).getMsbD n = _ from getMsbD_combinedRows ⟨n, hn⟩]
    cases hc : columnParity rows vl ⟨n, hn⟩ with
    | true => rw [hbit hc]
    | false => rw [Bool.and_false, Bool.and_false]

theorem parity_and (x y : CInt) :
    parity (x &&& y) = odd (fun b => x.getMsbD b && y.getMsbD b) 64 := by
  unfold parity
  congr 1
  funext b
  exact BitVec.getMsbD_and

/-- A word with the bit at `m` alone. -/
theorem getMsbD_bit {m b : Nat} (hm : m < 64) :
    (BitVec.twoPow 64 (63 - m)).getMsbD b = decide (b = m) := by
  rw [BitVec.getMsbD_twoPow]
  exact Bool.eq_iff_iff.mpr (by simp; omega)

/-- **Every operand fits where the matrix is diagonal**, and for no other matrix. -/
theorem productFits_all_iff (hvl : vl ≤ 64) : (∀ x, ProductFits rows vl x x) ↔
    ∀ n m : Fin 64, n.val < vl → m ≠ n → (rows n).getMsbD m.val = false := by
  constructor
  · intro hfits n m hn hmn
    -- the operand with the bit `m` alone meets row `n` there
    have hbit := hfits (BitVec.twoPow 64 (63 - m.val)) n
    rw [getMsbD_bit m.isLt, decide_eq_false fun h => hmn (Fin.ext h.symm), if_neg (by decide),
      parity_and] at hbit
    have hone := hbit hn
    rw [odd_single m.isLt fun b _ hb => by rw [getMsbD_bit m.isLt, decide_eq_false hb]; rfl] at hone
    rwa [getMsbD_bit m.isLt, decide_eq_true rfl, Bool.true_and] at hone
  · intro hdiag x n
    have hrow : n.val < vl → parity (x &&& rows n) = (x.getMsbD n.val && (rows n).getMsbD n.val) := by
      intro hn
      rw [parity_and]
      refine odd_single n.isLt fun b hb hbn => ?_
      rw [hdiag n ⟨b, hb⟩ hn fun h => hbn (congrArg Fin.val h), Bool.and_false]
    have hcolumn : columnParity rows vl n =
        (decide (n.val < vl) && (rows n).getMsbD n.val) := by
      have hother : ∀ m < vl, m ≠ n.val → (rows (Fin.ofNat 64 m)).getMsbD n.val = false := by
        intro m hm hmn
        have hval : (Fin.ofNat 64 m).val = m := Nat.mod_eq_of_lt (by omega)
        exact hdiag _ n (by omega) fun h => hmn (by rw [h, hval])
      by_cases hn : n.val < vl
      · have hself : Fin.ofNat 64 n.val = n := Fin.ext (Nat.mod_eq_of_lt n.isLt)
        rw [columnParity, odd_single hn hother, decide_eq_true hn, hself]
        rfl
      · rw [decide_eq_false hn, Bool.false_and]
        exact odd_false fun m hm => hother m hm (by omega)
    cases hx : x.getMsbD n.val with
    | true =>
      rw [if_pos rfl, hcolumn]
      by_cases hn : n.val < vl
      · rw [hrow hn, hx, Bool.true_and]
      · rw [decide_eq_false hn, Bool.false_and, Bool.false_and]
    | false =>
      rw [if_neg (by decide)]
      intro hn
      rw [hrow hn, hx, Bool.false_and]

end product

/-! ## 2. The loops -/

namespace Inst

open Program

section run
variable {pm : Params} {me : Fin pm.cpuCnt} {s : System pm} {f : Fields}

/-- The vectors are marked as used once a row has been read. -/
def usedAfter (n : Nat) (c : Cpu) : Cpu :=
  { c with VectorNotUsed := decide (n = 0) && c.VectorNotUsed }

theorem usedAfter_zero (c : Cpu) : usedAfter 0 c = c := rfl

theorem usedAfter_usedAfter {n m : Nat} (hn : n ≠ 0) (c : Cpu) :
    usedAfter n (usedAfter m c) = usedAfter (m + 1) c := by
  simp [usedAfter, hn]

/-- The loop over the rows adds them one after the other, whatever the operand is. -/
def CombinesRows (me : Fin pm.cpuCnt) (s : System pm) (x : CInt) (round : Nat → CInt → Inst CInt) :
    Prop :=
  ∀ n (hn : n < 64) m r, (round n r).run (handler me) (s.modifyCpu me (usedAfter m)) =
    (.ok (r ^^^ (x &&& (s.mCpus me).BitMatrix ⟨n, hn⟩)), s.modifyCpu me (usedAfter (m + 1)))

section combines
variable {round : Nat → CInt → Inst CInt} {x : CInt} {vl : Nat}

theorem CombinesRows.step (hround : CombinesRows me s x round) {n : Nat} (hn : n < 64) :
    (round n (x &&& combinedRows (s.mCpus me).BitMatrix n)).run (handler me)
        (s.modifyCpu me (usedAfter n)) =
      (.ok (x &&& combinedRows (s.mCpus me).BitMatrix (n + 1)),
        s.modifyCpu me (usedAfter (n + 1))) := by
  have he : (⟨n, hn⟩ : Fin 64) = Fin.ofNat 64 n := Fin.ext (Nat.mod_eq_of_lt hn).symm
  rw [hround n hn, he]
  exact congrArg (fun r => (Except.ok r, _)) (and_xorUpTo_succ x _ n)

/-- **The loop over the rows.** -/
theorem CombinesRows.run (hround : CombinesRows me s x round) (hvl : vl ≤ 64) :
    (foldUpTo vl (0 : CInt) round).run (handler me) s =
      (.ok (x &&& combinedRows (s.mCpus me).BitMatrix vl), s.modifyCpu me (usedAfter vl)) := by
  have hloop := run_foldUpTo (h := handler me) (f := round)
    (b := fun n => x &&& combinedRows (s.mCpus me).BitMatrix n)
    vl fun n hn => hround.step (Nat.lt_of_lt_of_le hn hvl)
  rw [show s.modifyCpu me (usedAfter 0) = s from System.modifyCpu_id s me,
    show x &&& combinedRows (s.mCpus me).BitMatrix 0 = 0 from BitVec.and_zero] at hloop
  exact hloop

theorem CombinesRows.run_throw (hround : CombinesRows me s x round) (hvl : 64 < vl)
    (hend : ∀ r t, (round 64 r).run (handler me) t = (.error .undefinedBehaviour, t)) :
    ((foldUpTo vl (0 : CInt) round).run (handler me) s).1 = .error .undefinedBehaviour := by
  have hloop := run_foldUpTo_error (h := handler me) (f := round)
    (b := fun n => x &&& combinedRows (s.mCpus me).BitMatrix n)
    hvl (fun n hn => hround.step hn) (hend _ _)
  rw [show s.modifyCpu me (usedAfter 0) = s from System.modifyCpu_id s me,
    show x &&& combinedRows (s.mCpus me).BitMatrix 0 = 0 from BitVec.and_zero] at hloop
  rw [hloop]

end combines

theorem element_throw {α : Type} {n : Nat} (hn : 64 ≤ n) (k : Fin 64 → Inst α) :
    (element n >>= k) = throw .undefinedBehaviour := by
  rw [element, dif_neg (by omega)]
  rfl

/-- One row of the scalar product. -/
def scalarRow (f : Fields) (idx : Nat) (result : CInt) : Inst CInt := do
  let c ← cpu
  let e ← element idx
  write .vectorUsed
  pure (result ^^^ (c.refSj f.j &&& c.BitMatrix e))

theorem scalarRow_combines : CombinesRows me s ((s.mCpus me).refSj f.j) (scalarRow f) := by
  intro n hn m r
  rw [scalarRow, run_cpu_bind, element_bind hn, run_write_bind, System.modifyCpu_comp,
    System.modifyCpu_self]
  rfl

/-- What the scalar product reads before its loop. -/
theorem scalarProduct_eq (hsv : pm.isSV1 = true)
    (hload : (s.mCpus me).Mode.mSv1BitMatrixLoaded = true) (hgh : f.gh = 0o070)
    (hk : f.k.val = 6) :
    (decode0070 pm true f).run (handler me) s = Program.run (handler me) (do
      let result ← foldUpTo (s.mCpus me).VL.toNat (0 : CInt) (scalarRow f)
      write (.S f.i result)
      next 1) s := by
  simp only [decode0070, hk]
  rw [crayAssert_bind (beq_iff_eq.mpr hgh), if_pos hsv, if_pos trivial, run_cpu_bind,
    crayUndocumented_run_bind _ (.inl hload)]
  rfl

/-- **The scalar product**: the operand where the combined rows have a bit. -/
theorem scalarProduct_run (hsv : pm.isSV1 = true)
    (hload : (s.mCpus me).Mode.mSv1BitMatrixLoaded = true) (hgh : f.gh = 0o070) (hk : f.k.val = 6)
    (hvl : (s.mCpus me).VL.toNat ≤ 64) :
    ∃ s', (decode0070 pm true f).run (handler me) s = (.ok ⟨1, false⟩, s') ∧
      (s'.mCpus me).S f.i = (s.mCpus me).refSj f.j &&&
        combinedRows (s.mCpus me).BitMatrix (s.mCpus me).VL.toNat := by
  refine ⟨(s.modifyCpu me (usedAfter (s.mCpus me).VL.toNat)).modifyCpu me (RegWrite.S f.i
    ((s.mCpus me).refSj f.j &&& combinedRows (s.mCpus me).BitMatrix (s.mCpus me).VL.toNat)).apply,
    ?_, ?_⟩
  · rw [scalarProduct_eq hsv hload hgh hk, run_bind,
      Run.bind_apply_ok (scalarRow_combines.run hvl), run_write_bind]
    rfl
  · rw [System.modifyCpu_self]
    exact Function.update_self _ _ _

/-- Of more rows than the matrix has there is no product. -/
theorem scalarProduct_throw (hsv : pm.isSV1 = true)
    (hload : (s.mCpus me).Mode.mSv1BitMatrixLoaded = true) (hgh : f.gh = 0o070) (hk : f.k.val = 6)
    (hvl : 64 < (s.mCpus me).VL.toNat) :
    ((decode0070 pm true f).run (handler me) s).1 = .error .undefinedBehaviour := by
  have hloop := (@scalarRow_combines pm me s f).run_throw hvl fun r t => by
    rw [scalarRow, run_cpu_bind, element_throw le_rfl]
    rfl
  rw [scalarProduct_eq hsv hload hgh hk, run_bind]
  exact congrArg Prod.fst (Run.bind_apply_error (Prod.ext hloop rfl))

/-- The elements of the vector product: their operands are the `S` registers. -/
def storedProduct (c : Cpu) (e : Fin 64) : CInt :=
  c.refSj (Fin.ofNat 8 e.val) &&& combinedRows c.BitMatrix c.VL.toNat

/-- One row of an element of the vector product. -/
def vectorRow (idx row : Nat) (result : CInt) : Inst CInt := do
  let c ← cpu
  let e ← element row
  let sj ← loopSj c idx
  write .vectorUsed
  pure (result ^^^ (sj &&& c.BitMatrix e))

/-- The round for one element. -/
def productRound (f : Fields) (vl idx : Nat) : Inst Unit := do
  let result ← foldUpTo vl (0 : CInt) (vectorRow idx)
  let e ← element idx
  write (.V f.i e result)

theorem loopSj_bind {α : Type} {n : Nat} (hn : n < 8) (c : Cpu) (k : CInt → Inst α) :
    (loopSj c n >>= k) = k (c.refSj (Fin.ofNat 8 n)) := by
  have he : (⟨n, hn⟩ : Fin 8) = Fin.ofNat 8 n := Fin.ext (Nat.mod_eq_of_lt hn).symm
  rw [loopSj, dif_pos hn, he]
  rfl

theorem loopSj_throw {α : Type} {n : Nat} (hn : 8 ≤ n) (c : Cpu) (k : CInt → Inst α) :
    (loopSj c n >>= k) = throw .undefinedBehaviour := by
  rw [loopSj, dif_neg (by omega)]
  rfl

theorem vectorRow_combines {idx : Nat} (hidx : idx < 8) :
    CombinesRows me s ((s.mCpus me).refSj (Fin.ofNat 8 idx)) (vectorRow idx) := by
  intro n hn m r
  rw [vectorRow, run_cpu_bind, element_bind hn, loopSj_bind hidx, run_write_bind,
    System.modifyCpu_comp, System.modifyCpu_self]
  rfl

/-- The elements stored so far, and the vectors marked as used. -/
def productState (me : Fin pm.cpuCnt) (s : System pm) (i : Fin 8) (idx : Nat) : System pm :=
  s.modifyCpu me fun c => usedAfter idx (c.storeElements i (storedProduct (s.mCpus me)) idx)

theorem productState_zero (i : Fin 8) : productState me s i 0 = s := by
  simp only [productState, Cpu.storeElements_zero, usedAfter_zero]
  exact System.modifyCpu_id s me

/-- The round for an element that has an `S` register. -/
theorem productRound_run {idx : Nat} (hidx : idx < (s.mCpus me).VL.toNat) (h8 : idx < 8)
    (hvl : (s.mCpus me).VL.toNat ≤ 64) :
    (productRound f (s.mCpus me).VL.toNat idx).run (handler me) (productState me s f.i idx) =
      (.ok (), productState me s f.i (idx + 1)) := by
  have hrow : CombinesRows me (productState me s f.i idx)
      (((productState me s f.i idx).mCpus me).refSj (Fin.ofNat 8 idx)) (vectorRow idx) :=
    vectorRow_combines h8
  have hmc : (productState me s f.i idx).mCpus me =
      usedAfter idx ((s.mCpus me).storeElements f.i (storedProduct (s.mCpus me)) idx) :=
    System.modifyCpu_self _ _ _
  have hresult : ((productState me s f.i idx).mCpus me).refSj (Fin.ofNat 8 idx) &&&
      combinedRows ((productState me s f.i idx).mCpus me).BitMatrix (s.mCpus me).VL.toNat =
        storedProduct (s.mCpus me) ⟨idx, by omega⟩ := by
    rw [hmc]
    rfl
  rw [productRound, run_bind, Run.bind_apply_ok (hrow.run hvl), element_bind (by omega), run_write,
    hresult, productState, System.modifyCpu_comp, System.modifyCpu_comp]
  have hstate : ∀ c : Cpu, (RegWrite.V f.i ⟨idx, by omega⟩
      (storedProduct (s.mCpus me) ⟨idx, by omega⟩)).apply (usedAfter (s.mCpus me).VL.toNat
        (usedAfter idx (c.storeElements f.i (storedProduct (s.mCpus me)) idx))) =
      usedAfter (idx + 1) (c.storeElements f.i (storedProduct (s.mCpus me)) (idx + 1)) := by
    intro c
    rw [usedAfter_usedAfter (by omega), ← Cpu.storeElements_succ c f.i _ idx (e := ⟨idx, by omega⟩)
      rfl]
    rfl
  simp only [hstate]
  rfl

/-- Behind the eighth element there is no `S` register to take the operand from. -/
theorem productRound_throw (t : System pm) {vl : Nat} (hpos : 0 < vl) :
    (productRound f vl 8).run (handler me) t = (.error .undefinedBehaviour, t) := by
  have hrow : (vectorRow 8 0 0).run (handler me) t = (.error .undefinedBehaviour, t) := by
    rw [vectorRow, run_cpu_bind, element_bind (by decide), loopSj_throw le_rfl]
    rfl
  have hnone : ∀ i, i < 0 → (vectorRow 8 i 0).run (handler me) t = (.ok 0, t) :=
    fun i hi => absurd hi (Nat.not_lt_zero i)
  have hloop := run_foldUpTo_error hpos hnone hrow
  rw [productRound, run_bind, Run.bind_apply_error hloop]

/-- What the vector product reads before its loop. -/
theorem vectorProduct_eq (hload : (s.mCpus me).Mode.mSv1BitMatrixLoaded = true) :
    (bitMatrixProduct true f).run (handler me) s = Program.run (handler me) (do
      crayAssert ((s.mCpus me).VL ≤ 64)
      forUpTo (s.mCpus me).VL.toNat (productRound f (s.mCpus me).VL.toNat)
      write .vectorUsed
      next 1) s := by
  rw [bitMatrixProduct, if_pos rfl, run_cpu_bind, crayUndocumented_run_bind _ (.inl hload)]
  rfl

/-- **The vector product**, for as many elements as there are `S` registers. -/
theorem vectorProduct_run (hload : (s.mCpus me).Mode.mSv1BitMatrixLoaded = true)
    (hvl : (s.mCpus me).VL.toNat ≤ 8) :
    ∃ s', (bitMatrixProduct true f).run (handler me) s = (.ok ⟨1, false⟩, s') ∧
      ∀ e : Fin 64, e.val < (s.mCpus me).VL.toNat →
        (s'.mCpus me).V f.i e = storedProduct (s.mCpus me) e := by
  have hvl' : (s.mCpus me).VL ≤ 64 := Nat.le_trans hvl (by decide)
  have hround : ∀ n, n < (s.mCpus me).VL.toNat →
      (productRound f (s.mCpus me).VL.toNat n).run (handler me) (productState me s f.i n) =
        (.ok (), productState me s f.i (n + 1)) :=
    fun n hn => productRound_run hn (by omega) (by omega)
  have hloop := run_forUpTo _ hround
  rw [productState_zero] at hloop
  refine ⟨(productState me s f.i (s.mCpus me).VL.toNat).modifyCpu me RegWrite.vectorUsed.apply,
    ?_, fun e he => ?_⟩
  · rw [vectorProduct_eq hload, crayAssert_bind (decide_eq_true hvl'), run_bind,
      Run.bind_apply_ok hloop, run_vectorUsed]
  · rw [System.modifyCpu_self, productState, System.modifyCpu_self]
    exact (Cpu.storeElements_V _ _ _ _ e).trans (if_pos he)

theorem vectorProduct_throw (hload : (s.mCpus me).Mode.mSv1BitMatrixLoaded = true)
    (hvl : 8 < (s.mCpus me).VL.toNat) :
    ∃ e, ((bitMatrixProduct true f).run (handler me) s).1 = .error e := by
  rw [vectorProduct_eq hload]
  by_cases h64 : (s.mCpus me).VL ≤ 64
  · have h64' : (s.mCpus me).VL.toNat ≤ 64 := h64
    have hround : ∀ n, n < 8 →
        (productRound f (s.mCpus me).VL.toNat n).run (handler me) (productState me s f.i n) =
          (.ok (), productState me s f.i (n + 1)) :=
      fun n hn => productRound_run (by omega) hn h64'
    have hloop := run_foldUpTo_error (f := fun idx (_ : Unit) =>
      productRound f (s.mCpus me).VL.toNat idx) (b := fun _ => ()) hvl hround
        (productRound_throw _ (by omega))
    rw [productState_zero] at hloop
    rw [crayAssert_bind (decide_eq_true h64), run_bind, forUpTo, Run.bind_apply_error hloop]
    exact ⟨_, rfl⟩
  · rw [decide_eq_false h64]
    exact ⟨_, rfl⟩

end run

end Inst

/-! ## 3. The instructions -/

open Inst

section instructions
variable {pm : Params}

/-- The scalar product ends, with the product. -/
def ScalarProduct (me : Fin pm.cpuCnt) (s : System pm) (aParcels : CInt) : Prop :=
  ∃ s', (decode pm true aParcels).run (handler me) s = (.ok ⟨1, false⟩, s') ∧
    IsProduct (s.mCpus me).BitMatrix (s.mCpus me).VL.toNat
      ((s.mCpus me).refSj (extractFields aParcels).j) ((s'.mCpus me).S (extractFields aParcels).i)

/-- Every scalar product with the operand `x` in its register returns `r`. -/
def AgreesWithScalar (me : Fin pm.cpuCnt) (s : System pm) (x r : CInt) : Prop :=
  ∀ (aParcels : CInt) (f : Fields), extractFields aParcels = f → f.gh = 0o070 → f.k.val = 6 →
    f.j ≠ 0 → ∃ s',
      (decode pm true aParcels).run (handler me) (s.modifyCpu me (RegWrite.S f.j x).apply) =
        (.ok ⟨1, false⟩, s') ∧
      (s'.mCpus me).S f.i = r

/-- The vector product ends; its elements are products, and those of the scalar form. -/
def VectorProduct (me : Fin pm.cpuCnt) (s : System pm) (aParcels : CInt) : Prop :=
  ∃ s', (decode pm true aParcels).run (handler me) s = (.ok ⟨1, false⟩, s') ∧
    ∀ e : Fin 64, e.val < (s.mCpus me).VL.toNat →
      IsProduct (s.mCpus me).BitMatrix (s.mCpus me).VL.toNat
        ((s.mCpus me).V (extractFields aParcels).j e)
        ((s'.mCpus me).V (extractFields aParcels).i e) ∧
      AgreesWithScalar me s ((s.mCpus me).V (extractFields aParcels).j e)
        ((s'.mCpus me).V (extractFields aParcels).i e)

variable {me : Fin pm.cpuCnt} {s : System pm}

/-- The scalar form returns what the vector form does where the same columns count. -/
theorem agreesWithScalar_iff (hsv : pm.isSV1 = true)
    (hload : (s.mCpus me).Mode.mSv1BitMatrixLoaded = true) (hvl : (s.mCpus me).VL.toNat ≤ 64)
    (x y : CInt) :
    AgreesWithScalar me s x
        (y &&& combinedRows (s.mCpus me).BitMatrix (s.mCpus me).VL.toNat) ↔
      SameColumns (s.mCpus me).BitMatrix (s.mCpus me).VL.toNat x y := by
  have hscalar : ∀ (aParcels : CInt) (f : Fields), extractFields aParcels = f → f.gh = 0o070 →
      f.k.val = 6 → f.j ≠ 0 → ∃ s',
        (decode pm true aParcels).run (handler me) (s.modifyCpu me (RegWrite.S f.j x).apply) =
          (.ok ⟨1, false⟩, s') ∧
        (s'.mCpus me).S f.i =
          x &&& combinedRows (s.mCpus me).BitMatrix (s.mCpus me).VL.toNat := by
    intro aParcels f hf hgh hk hj
    subst hf
    have hmc : (s.modifyCpu me (RegWrite.S (extractFields aParcels).j x).apply).mCpus me =
        (RegWrite.S (extractFields aParcels).j x).apply (s.mCpus me) := System.modifyCpu_self _ _ _
    obtain ⟨s', hrun, hS⟩ := @scalarProduct_run pm me (s.modifyCpu me
      (RegWrite.S (extractFields aParcels).j x).apply) (extractFields aParcels) hsv
      (by rw [hmc]; exact hload) hgh hk (by rw [hmc]; exact hvl)
    refine ⟨s', ?_, ?_⟩
    · rw [decode_of_gh hgh rfl]
      exact hrun
    · rw [hS, hmc, Cpu.refSj, if_neg hj]
      congr 1
      exact Function.update_self _ _ _
  rw [← and_combinedRows_eq_iff]
  constructor
  · intro h
    obtain ⟨s', hrun, hr⟩ := h (0o070016 <<< 32) _ rfl (by decide) (by decide)
      (by decide)
    obtain ⟨t, hrun', hr'⟩ := hscalar (0o070016 <<< 32) _ rfl (by decide)
      (by decide) (by decide)
    obtain rfl : s' = t := congrArg Prod.snd (hrun.symm.trans hrun')
    exact hr'.symm.trans hr
  · intro heq aParcels f hf hgh hk hj
    rw [← heq]
    exact hscalar aParcels f hf hgh hk hj

section exact
variable {aParcels : CInt}

/-- **The scalar form**, where it returns the product. -/
theorem scalarProduct_iff (hsv : pm.isSV1 = true)
    (hload : (s.mCpus me).Mode.mSv1BitMatrixLoaded = true)
    (hk : (extractFields aParcels).k.val = 6) (hgh : (extractFields aParcels).gh = 0o070) :
    ScalarProduct me s aParcels ↔ (s.mCpus me).VL.toNat ≤ 64 ∧
      ProductFits (s.mCpus me).BitMatrix (s.mCpus me).VL.toNat
        ((s.mCpus me).refSj (extractFields aParcels).j)
        ((s.mCpus me).refSj (extractFields aParcels).j) := by
  rw [ScalarProduct, decode_of_gh hgh rfl]
  by_cases hvl : (s.mCpus me).VL.toNat ≤ 64
  · obtain ⟨s', hrun, hS⟩ := scalarProduct_run hsv hload hgh hk hvl
    rw [← isProduct_iff, ← hS]
    constructor
    · rintro ⟨t, hrun', hprod⟩
      obtain rfl : s' = t := congrArg Prod.snd (hrun.symm.trans hrun')
      exact ⟨hvl, hprod⟩
    · rintro ⟨-, hprod⟩
      exact ⟨s', hrun, hprod⟩
  · have hthrow := scalarProduct_throw hsv hload hgh hk (by omega)
    refine ⟨fun ⟨s', hrun, _⟩ => ?_, fun h => absurd h.1 hvl⟩
    exact absurd ((congrArg Prod.fst hrun).symm.trans hthrow) (by simp)

/-- What the vector form stores in an element, against the product and the scalar form. -/
def ElementFits (c : Cpu) (x : CInt) (e : Fin 64) : Prop :=
  ProductFits c.BitMatrix c.VL.toNat x (c.refSj (Fin.ofNat 8 e.val)) ∧
    SameColumns c.BitMatrix c.VL.toNat x (c.refSj (Fin.ofNat 8 e.val))

theorem storedProduct_iff (hsv : pm.isSV1 = true)
    (hload : (s.mCpus me).Mode.mSv1BitMatrixLoaded = true) (hvl : (s.mCpus me).VL.toNat ≤ 64)
    (x : CInt) (e : Fin 64) :
    IsProduct (s.mCpus me).BitMatrix (s.mCpus me).VL.toNat x (storedProduct (s.mCpus me) e) ∧
        AgreesWithScalar me s x (storedProduct (s.mCpus me) e) ↔
      ElementFits (s.mCpus me) x e := by
  rw [storedProduct]
  exact and_congr (isProduct_iff _ _) (agreesWithScalar_iff hsv hload hvl _ _)

/-- **The vector form**, where its elements are products and those of the scalar form. -/
theorem vectorProduct_iff (hsv : pm.isSV1 = true)
    (hload : (s.mCpus me).Mode.mSv1BitMatrixLoaded = true)
    (hk : (extractFields aParcels).k.val = 6) (hgh : (extractFields aParcels).gh = 0o174) :
    VectorProduct me s aParcels ↔ (s.mCpus me).VL.toNat ≤ 8 ∧
      ∀ e : Fin 64, e.val < (s.mCpus me).VL.toNat →
        ElementFits (s.mCpus me) ((s.mCpus me).V (extractFields aParcels).j e) e := by
  have hdecode : (decode pm true aParcels).run (handler me) s =
      (bitMatrixProduct true (extractFields aParcels)).run (handler me) s := by
    rw [decode_of_gh hgh rfl]
    simp only [decode0174, hk]
    rw [crayAssert_bind (beq_iff_eq.mpr hgh), if_pos hsv]
  rw [VectorProduct, hdecode]
  by_cases hvl : (s.mCpus me).VL.toNat ≤ 8
  · obtain ⟨s', hrun, hV⟩ := @vectorProduct_run pm me s (extractFields aParcels) hload hvl
    have hstored := fun x e => @storedProduct_iff pm me s hsv hload (by omega) x e
    constructor
    · rintro ⟨t, hrun', hall⟩
      obtain rfl : s' = t := congrArg Prod.snd (hrun.symm.trans hrun')
      refine ⟨hvl, fun e he => (hstored _ e).mp ?_⟩
      rw [← hV e he]
      exact hall e he
    · rintro ⟨-, hall⟩
      refine ⟨s', hrun, fun e he => ?_⟩
      rw [hV e he]
      exact (hstored _ e).mpr (hall e he)
  · obtain ⟨e, hthrow⟩ := @vectorProduct_throw pm me s (extractFields aParcels) hload (by omega)
    refine ⟨fun ⟨s', hrun, _⟩ => ?_, fun h => absurd h.1 hvl⟩
    exact absurd ((congrArg Prod.fst hrun).symm.trans hthrow) (by simp)

end exact

end instructions

/-- **The bit matrix products**: with a matrix loaded, the scalar form returns the product exactly
    where the matrix has the rows and the combined ones fit the operand; the vector form does
    exactly where each of its elements has an `S` register that fits in place of its operand. -/
theorem bitMatrix_iff {pm : Params} (me : Fin pm.cpuCnt) (s : System pm) (aParcels : CInt)
    (f : Fields) (hf : extractFields aParcels = f) (hsv : pm.isSV1 = true)
    (hload : (s.mCpus me).Mode.mSv1BitMatrixLoaded = true) (hk : f.k.val = 6) :
    (f.gh = 0o070 → (ScalarProduct me s aParcels ↔
      (s.mCpus me).VL.toNat ≤ 64 ∧
        ProductFits (s.mCpus me).BitMatrix (s.mCpus me).VL.toNat ((s.mCpus me).refSj f.j)
          ((s.mCpus me).refSj f.j))) ∧
    (f.gh = 0o174 → (VectorProduct me s aParcels ↔
      (s.mCpus me).VL.toNat ≤ 8 ∧ ∀ e : Fin 64, e.val < (s.mCpus me).VL.toNat →
        ProductFits (s.mCpus me).BitMatrix (s.mCpus me).VL.toNat ((s.mCpus me).V f.j e)
          ((s.mCpus me).refSj (Fin.ofNat 8 e.val)) ∧
        SameColumns (s.mCpus me).BitMatrix (s.mCpus me).VL.toNat ((s.mCpus me).V f.j e)
          ((s.mCpus me).refSj (Fin.ofNat 8 e.val)))) := by
  subst hf
  exact ⟨scalarProduct_iff hsv hload hk, vectorProduct_iff hsv hload hk⟩

/-- An SV1 of one processor. -/
abbrev sv1 : Params := Params.standard .SV1 1 Params.one_lt

/-- A matrix of one row with the bits 0 and 1 is loaded; `a` is in `S1` and `V1`. -/
def matrixOperands (a : CInt) : System sv1 :=
  (System.powerOn sv1).modifyCpu (0 : Fin 1) fun c =>
    { c with
      VL := 1
      Mode := { c.Mode with mSv1BitMatrixLoaded := true }
      BitMatrix := fun e => if e = 0 then 0xC000000000000000 else 0
      S := fun _ => a
      V := fun _ _ => a }

/-- `S2 S1*BT` of an operand that has no bit of the row. -/
theorem bitMatrix_iff_clear : ScalarProduct (0 : Fin 1) (matrixOperands 7) (0o070216 <<< 32) :=
  ((bitMatrix_iff (0 : Fin 1) (matrixOperands 7) (0o070216 <<< 32) _ rfl (by decide)
    (by decide) (by decide)).1 (by decide)).mpr
      ⟨by decide, by unfold ProductFits; decide +kernel⟩

/-- An operand with both bits of the row has an even number of them, and keeps both. -/
theorem not_bitMatrix_product :
    ¬ ∀ {pm : Params} (me : Fin pm.cpuCnt) (s : System pm) (aParcels : CInt),
      pm.isSV1 = true → (s.mCpus me).Mode.mSv1BitMatrixLoaded = true →
      (s.mCpus me).VL.toNat ≤ 64 → (extractFields aParcels).gh = 0o070 →
      (extractFields aParcels).k.val = 6 → ScalarProduct me s aParcels := by
  intro hall
  obtain ⟨s', hrun, hprod⟩ := hall (0 : Fin 1) (matrixOperands 0xC000000000000000)
    (0o070216 <<< 32) (by decide) (by decide) (by decide)
    (by decide) (by decide)
  have hs : s' = ((decode sv1 true (0o070216 <<< 32)).run (handler (0 : Fin 1))
      (matrixOperands 0xC000000000000000)).2 := by
    rw [hrun]
  have hbit := hprod 0
  rw [hs] at hbit
  revert hbit
  decide +kernel

end CraySim
