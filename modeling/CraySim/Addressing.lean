/-
  Subject:   The relative addresses of the memory instructions.

  Scalar loads and stores, block transfers, strided vector accesses, gathers and scatters compute
  their addresses apart from each other. `base` and `index` say what each of them adds; the file
  finds the word every access of every instruction asks for.

  * `AccessForm`, `base`, `index`, `count` -- the accesses of an instruction,
  * `address` -- the relative address of an access, as the code has it,
  * `decode_accesses` -- an instruction makes these accesses, in this order,
  * `addressWidth`, `effectiveAddress` -- the sum cut to the width of the mode,
  * `effective_address` -- **where the two agree**: off the scalar forms of the X-MP the sum is
    never cut.
-/
import CraySim.InstructionLength
import Mathlib.Data.Int.ModEq

namespace CraySim

/-! ## 1. Sign extensions -/

theorem CXmpAddr.signExtend_eq (aA : CXmpAddr) : aA.signExtend = BitVec.signExtend 32 aA := by
  have hbit : (aA &&& 0x800000#24 != 0) = aA.getLsbD 23 :=
    WordField.and_bit_bne_zero aA 23 (by decide)
  unfold CXmpAddr.signExtend
  rw [hbit]
  exact WordField.ite_or_eq_signExtend aA 0xFF000000#32 (by decide)

theorem CXmpAddr.signExtendShort_eq (x : BitVec 22) :
    CXmpAddr.signExtendShort (x.setWidth 24) = BitVec.signExtend 24 x := by
  have hbit : (x.setWidth 24 &&& 0x200000#24 != 0) = x.getLsbD 21 := by
    have h := WordField.and_bit_bne_zero (x.setWidth 24) 21 (by decide)
    rw [BitVec.getLsbD_setWidth] at h
    simpa using h
  unfold CXmpAddr.signExtendShort
  rw [hbit]
  exact WordField.ite_or_eq_signExtend x 0xC00000#24 (by decide)

theorem toInt_signExtendShort (x : BitVec 22) :
    (CXmpAddr.signExtend (CXmpAddr.ofAddr
      ((CXmpAddr.signExtendShort (x.setWidth 24)).setWidth 32))).toInt = x.toInt := by
  have hcut : ∀ y : BitVec 24, CXmpAddr.ofAddr (y.setWidth 32) = y := fun y => by
    simp [CXmpAddr.ofAddr]
  rw [hcut, CXmpAddr.signExtend_eq, CXmpAddr.signExtendShort_eq,
    BitVec.toInt_signExtend_of_le (by decide), BitVec.toInt_signExtend_of_le (by decide)]

/-! ## 2. The accesses of an instruction -/

/-- How a memory instruction names its words. -/
inductive AccessForm where
  /-- `exp,Ah`: 010x to 013x. -/
  | scalar
  /-- `,A0`: the words of a block transfer, 0034 to 0037. -/
  | block
  /-- `,A0,Ak`: the elements of a vector, 0176 and 0177. -/
  | strided
  /-- `,A0,Vk`: gather and scatter, 0176 and 0177. -/
  | gathered
  deriving DecidableEq

namespace Fields

variable (f : Fields)

/-- The field that tells a strided access from a gather: `j` of a load, `i` of a store. -/
def vectorAccessForm (sel : Fin 8) : Option AccessForm :=
  match sel.val with
  | 0 => some .strided
  | 1 => some .gathered
  | _ => none

/-- The memory instructions. -/
def accessForm : Option AccessForm :=
  if 0o100 ≤ f.gh ∧ f.gh ≤ 0o137 then some .scalar
  else if 0o034 ≤ f.gh ∧ f.gh ≤ 0o037 then some .block
  else if f.gh = 0o176 then vectorAccessForm f.j
  else if f.gh = 0o177 then vectorAccessForm f.i
  else none

end Fields

namespace AccessForm

variable (pm : Params) (c : Cpu) (f : Fields)

/-- The base register. -/
def base : AccessForm → CAddr
  | scalar => c.refAj f.h
  | _ => c.refA 0

/-- The offset or index of access number `n`: a constant of 22 bits in X mode, the number of the
    word in its block, a multiple of the stride, an element of the vector of offsets. -/
def index (n : Nat) : AccessForm → Int
  | scalar => if c.XMode then f.jkm.toInt else f.mn.toInt
  | block => n
  | strided =>
    (if c.XMode then (CXmpAddr.ofAddr (c.refAk f.k)).toInt else (c.refAk f.k).toInt) * n
  | gathered => if h : n < 64 then (c.V f.k ⟨n, h⟩).toInt else 0

/-- The accesses of an instruction. -/
def count : AccessForm → Nat
  | scalar => 1
  | block => Inst.transferSize c f
  | _ => c.VL.toNat

/-- The scalar forms cut the sum, on an X-MP without enhanced addressing. -/
def cuts (fm : AccessForm) : Bool := fm == scalar && (pm.isXmp && !c.XmpEnhancedAddressingMode)

/-- The relative address of access number `n`. -/
def address (fm : AccessForm) (n : Nat) : CAddr :=
  let sum := BitVec.ofInt 32 ((fm.base c f).toNat + fm.index c f n)
  if fm.cuts pm c then BitVec.ofNat 32 (sum.toNat % 2 ^ 22) else sum

end AccessForm

/-! ## 3. The requests of an instruction -/

/-- The relative address a request asks for. -/
def dataAddress {pm : Params} (c : Req × System pm) : Option CAddr :=
  match c.1 with
  | .readDataMem aAddr => some aAddr
  | .writeDataMem aAddr _ => some aAddr
  | _ => none

/-- The relative addresses of a run, in order. -/
def dataAddresses {pm : Params} {α : Type} (me : Fin pm.cpuCnt) (m : Inst α) (s : System pm) :
    List CAddr :=
  m.events dataAddress (handler me) s

namespace Inst

open Program

section requests
variable {pm : Params} {me : Fin pm.cpuCnt} {pre : Cpu → Prop}

/-- `m` asks for the addresses `l` from registers in `pre`, and leaves them in `post`. -/
def Accesses {α : Type} (me : Fin pm.cpuCnt) (pre : Cpu → Prop) (l : List CAddr)
    (post : α → Cpu → Prop) (m : Inst α) : Prop :=
  m.Emits dataAddress (handler me) (fun s => pre (s.mCpus me)) l fun a s => post a (s.mCpus me)

theorem Accesses.bind {α β : Type} {q : α → Cpu → Prop} {post : β → Cpu → Prop}
    {u v : List CAddr} {m : Inst α} {f : α → Inst β} (hm : Accesses me pre u q m)
    (hf : ∀ a, Accesses me (q a) v post (f a)) : Accesses me pre (u ++ v) post (m >>= f) :=
  Emits.bind hm hf

variable {l : List CAddr}

theorem Accesses.mono {α : Type} {pre' : Cpu → Prop} {post post' : α → Cpu → Prop}
    {m : Inst α} (hm : Accesses me pre l post m) (hpre : ∀ c, pre' c → pre c)
    (hpost : ∀ a c, post a c → post' a c) : Accesses me pre' l post' m :=
  Emits.mono hm (fun s => hpre (s.mCpus me)) fun a s => hpost a (s.mCpus me)

theorem accesses_next {post : Decoded → Cpu → Prop} {n : Nat}
    (hpost : ∀ c, pre c → post ⟨n, false⟩ c) : Accesses me pre [] post (next n) :=
  emits_ret fun s => hpost (s.mCpus me)

theorem accesses_throw {α : Type} {post : α → Cpu → Prop} {e : Exn} :
    Accesses me pre l post (throw e) :=
  emits_raise

theorem accesses_cpu : Accesses me pre [] (fun c c' => c = c' ∧ pre c') cpu := by
  refine emits_request (fun _ _ => rfl) ?_
  rintro s a s' hs ⟨⟩
  exact ⟨rfl, hs⟩

/-- A request for its effect, with the addresses it asks for. -/
theorem accesses_command {r : Req} {post : Cpu → Prop}
    (hl : ∀ s : System pm, (dataAddress (r, s)).toList = l)
    (hpost : ∀ (s : System pm) a s', pre (s.mCpus me) → handler me r s = (.ok a, s') →
      post (s'.mCpus me)) : Accesses me pre l (fun _ => post) (command r) := by
  have hreq : Accesses me pre l (fun _ => post) (ask r) :=
    emits_request (fun s _ => hl s) hpost
  rw [← List.append_nil l]
  exact hreq.bind fun _ => emits_ret fun _ hs => hs

theorem accesses_write {q : Cpu → Prop} {w : RegWrite} (hw : ∀ c, pre c → q (w.apply c)) :
    Accesses me pre [] (fun _ => q) (write w) := by
  refine accesses_command (fun _ => rfl) ?_
  rintro s a s' hs ⟨⟩
  rw [System.modifyCpu_self]
  exact hw _ hs

theorem accesses_readDataMem (aAddr : CAddr) :
    Accesses me pre [aAddr] (fun _ => pre) (readDataMem aAddr) := by
  refine emits_request (fun _ _ => rfl) fun s a s' hs h => ?_
  have hstate : s' = s := by
    have heq := SysRun.readDataMem_state me s aAddr
    change SysRun.readDataMem me aAddr s = _ at h
    rw [h] at heq
    exact heq
  rw [hstate]
  exact hs

theorem accesses_writeDataMem (aAddr : CAddr) (aData : CInt) :
    Accesses me pre [aAddr] (fun _ => pre) (writeDataMem aAddr aData) := by
  refine accesses_command (fun _ => rfl) fun s a s' hs h => ?_
  have he := (SysRun.handler_effect me s (.writeDataMem aAddr aData)).cpu me
  rw [h] at he
  generalize s'.mCpus me = c' at he ⊢
  cases he with
  | none => exact hs

theorem accesses_crayAssert {b : Bool} : Accesses me pre [] (fun _ => pre) (crayAssert b) := by
  cases b with
  | false => exact accesses_throw
  | true => exact emits_ret fun _ hs => hs

theorem accesses_crayUndocumented {b : Bool} :
    Accesses me pre [] (fun _ => pre) (crayUndocumented b) := by
  unfold crayUndocumented
  refine Accesses.bind (v := []) accesses_cpu fun c => ?_
  split
  · exact accesses_throw
  · exact emits_ret fun s hs => hs.2

theorem accesses_element {n : Nat} :
    Accesses me pre [] (fun e c => e.val = n ∧ pre c) (element n) := by
  unfold element
  split
  · exact emits_ret fun s hs => ⟨rfl, hs⟩
  · exact accesses_throw

/-- The registers are read: from here on they are known. -/
theorem accesses_cpu_bind {α : Type} {post : α → Cpu → Prop} {f : Cpu → Inst α}
    (hf : ∀ c, pre c → Accesses me (· = c) l post (f c)) : Accesses me pre l post (cpu >>= f) :=
  fun s hs => hf (s.mCpus me) hs s rfl

theorem accesses_foldUpTo {β : Type} {body : Nat → β → Inst β} {J : Nat → Cpu → Prop}
    {x : Nat → CAddr} {n : Nat} {b : β}
    (hround : ∀ i b, i < n → Accesses me (J i) [x i] (fun _ => J (i + 1)) (body i b)) :
    Accesses me (J 0) ((List.range n).map x) (fun _ => J n) (foldUpTo n b body) :=
  emits_foldUpTo (I := fun i (s : System pm) => J i (s.mCpus me)) hround

end requests

/-! ## 4. The memory instructions -/

section instructions
variable {pm : Params} {me : Fin pm.cpuCnt} {c₀ : Cpu} {f : Fields} {aGh : Nat}

theorem scalarAccess_accesses {access : Cpu → CAddr → Inst Unit}
    (hacc : ∀ c a, Accesses me (· = c₀) [a] (fun _ _ => True) (access c a)) :
    Accesses me (· = c₀) [scalarAddr pm c₀ f] (fun _ _ => True)
      (scalarAccess pm true f aGh access) := by
  unfold scalarAccess
  refine Accesses.bind (u := []) accesses_crayAssert fun _ => ?_
  refine accesses_cpu_bind ?_
  rintro c rfl
  rw [if_pos rfl]
  refine Accesses.bind (u := []) accesses_crayUndocumented fun _ => ?_
  exact Accesses.bind (v := []) (hacc c _) fun _ => accesses_next fun _ _ => trivial

theorem blockLoad_accesses {w : Fin 64 → CInt → RegWrite}
    (hw : ∀ reg v c, ((w reg v).apply c).refA 0 = c.refA 0) :
    Accesses me (· = c₀) ((List.range (transferSize c₀ f)).map fun n =>
        c₀.refA 0 + BitVec.ofNat 32 n) (fun _ _ => True) (blockLoad true f aGh w) := by
  unfold blockLoad
  refine Accesses.bind (u := []) accesses_crayAssert fun _ => ?_
  rw [if_pos rfl]
  refine accesses_cpu_bind ?_
  rintro c rfl
  rw [← List.append_nil (List.map _ _)]
  refine Accesses.bind (q := fun _ _ => True) ?_ fun _ => accesses_next fun _ _ => trivial
  have hloop : Accesses me (fun c' => c'.refA 0 = c.refA 0) ((List.range (transferSize c f)).map
      fun n => c.refA 0 + BitVec.ofNat 32 n) (fun _ c' => c'.refA 0 = c.refA 0)
      (foldUpTo (transferSize c f) f.jk fun idx reg => do
        let c ← cpu
        let v ← readDataMem (c.refA 0 + BitVec.ofNat 32 idx)
        write (w reg v)
        pure (reg + 1)) := by
    refine accesses_foldUpTo (J := fun _ t => t.refA 0 = c.refA 0) fun idx reg _ => ?_
    refine accesses_cpu_bind fun c' hc' => ?_
    rw [hc']
    refine Accesses.bind (v := []) (accesses_readDataMem _) fun v => ?_
    refine Accesses.bind (v := []) (accesses_write (q := fun t => t.refA 0 = c.refA 0) ?_)
      fun _ => emits_ret fun _ hs => hs
    rintro t rfl
    rw [hw, hc']
  exact hloop.mono (fun t ht => by rw [ht]) fun _ _ _ => trivial

theorem blockStore_accesses {r : Cpu → Fin 64 → CInt} :
    Accesses me (· = c₀) ((List.range (transferSize c₀ f)).map fun n =>
        c₀.refA 0 + BitVec.ofNat 32 n) (fun _ _ => True) (blockStore true f aGh r) := by
  unfold blockStore
  refine Accesses.bind (u := []) accesses_crayAssert fun _ => ?_
  rw [if_pos rfl]
  refine accesses_cpu_bind ?_
  rintro c rfl
  rw [← List.append_nil (List.map _ _)]
  refine Accesses.bind (q := fun _ _ => True) ?_ fun _ => accesses_next fun _ _ => trivial
  have hloop : Accesses me (· = c) ((List.range (transferSize c f)).map
      fun n => c.refA 0 + BitVec.ofNat 32 n) (fun _ => (· = c))
      (foldUpTo (transferSize c f) f.jk fun idx reg => do
        let c ← cpu
        writeDataMem (c.refA 0 + BitVec.ofNat 32 idx) (r c reg)
        pure (reg + 1)) := by
    refine accesses_foldUpTo (J := fun _ t => t = c) fun idx reg _ => ?_
    refine accesses_cpu_bind ?_
    rintro c rfl
    exact Accesses.bind (v := []) (accesses_writeDataMem _ _) fun _ => emits_ret fun _ hs => hs
  exact hloop.mono (fun _ ht => ht) fun _ _ _ => trivial

/-- What a vector access keeps of the registers it started with: the base, and the elements of the
    offset vector it has not come to. -/
def AddressesFrom (c₀ : Cpu) (f : Fields) (idx : Nat) (c : Cpu) : Prop :=
  c.refA 0 = c₀.refA 0 ∧ ∀ e : Fin 64, idx ≤ e.val → c.V f.k e = c₀.V f.k e

theorem vectorLoad_accesses {addr : Cpu → Cpu → Fin 64 → CAddr} {x : Nat → CAddr}
    (hx : ∀ c e, AddressesFrom c₀ f e.val c → addr c₀ c e = x e.val) :
    Accesses me (· = c₀) ((List.range c₀.VL.toNat).map x) (fun _ _ => True)
      (vectorLoad true f addr) := by
  unfold vectorLoad
  rw [if_pos rfl]
  refine accesses_cpu_bind ?_
  rintro c rfl
  refine Accesses.bind (u := []) accesses_crayAssert fun _ => ?_
  rw [← List.append_nil (List.map _ _)]
  refine Accesses.bind (q := fun _ _ => True) ?_ fun _ =>
    Accesses.bind (u := []) (v := []) (accesses_write (q := fun _ => True) fun _ _ => trivial)
      fun _ => accesses_next fun _ _ => trivial
  have hloop : Accesses me (AddressesFrom c f 0) ((List.range c.VL.toNat).map x)
      (fun _ => AddressesFrom c f c.VL.toNat) (forUpTo c.VL.toNat fun idx => do
        let e ← element idx
        let c' ← cpu
        let v ← readDataMem (addr c c' e)
        write (.V f.i e v)) := by
    refine accesses_foldUpTo (J := AddressesFrom c f) fun idx _ _ => ?_
    refine Accesses.bind (u := []) accesses_element fun e => ?_
    refine accesses_cpu_bind ?_
    rintro c' ⟨rfl, hc'⟩
    rw [hx c' e hc']
    refine Accesses.bind (v := []) (accesses_readDataMem _) fun v => ?_
    refine accesses_write ?_
    rintro t rfl
    refine ⟨hc'.1, fun e' he' => ?_⟩
    -- the element just written is behind
    have hne : e' ≠ e := fun heq => by
      rw [heq] at he'
      omega
    have hrest : t.V f.k e' = c.V f.k e' := hc'.2 e' (by omega)
    by_cases hki : f.k = f.i
    · simp only [RegWrite.apply, hki, Function.update_self, Function.update_of_ne hne]
      rw [← hki]
      exact hrest
    · simp [RegWrite.apply, hki, hrest]
  exact hloop.mono (fun t ht => by rw [ht]; exact ⟨rfl, fun _ _ => rfl⟩) fun _ _ _ => trivial

theorem vectorStore_accesses {addr : Cpu → Cpu → Fin 64 → CAddr} {x : Nat → CAddr}
    (hx : ∀ e : Fin 64, addr c₀ c₀ e = x e.val) :
    Accesses me (· = c₀) ((List.range c₀.VL.toNat).map x) (fun _ _ => True)
      (vectorStore true f addr) := by
  unfold vectorStore
  rw [if_pos rfl]
  refine accesses_cpu_bind ?_
  rintro c rfl
  refine Accesses.bind (u := []) accesses_crayAssert fun _ => ?_
  rw [← List.append_nil (List.map _ _)]
  refine Accesses.bind (q := fun _ _ => True) ?_ fun _ => accesses_next fun _ _ => trivial
  have hloop : Accesses me (· = c) ((List.range c.VL.toNat).map x) (fun _ => (· = c))
      (forUpTo c.VL.toNat fun idx => do
        let e ← element idx
        let c' ← cpu
        writeDataMem (addr c c' e) (c'.V f.j e)) := by
    refine accesses_foldUpTo (J := fun _ t => t = c) fun idx _ _ => ?_
    refine Accesses.bind (u := []) accesses_element fun e => ?_
    refine accesses_cpu_bind ?_
    rintro c' ⟨rfl, rfl⟩
    rw [hx e]
    exact accesses_writeDataMem _ _
  exact hloop.mono (fun _ ht => ht) fun _ _ _ => trivial

end instructions

/-! ## 5. Their addresses -/

section addresses
variable (pm : Params) (c : Cpu) (f : Fields)

theorem add_ofInt (a : CAddr) (x : Int) : a + BitVec.ofInt 32 x = BitVec.ofInt 32 (a.toNat + x) := by
  rw [BitVec.ofInt_add, BitVec.ofInt_natCast, BitVec.ofNat_toNat, BitVec.setWidth_eq]

theorem scalarOffset_eq : scalarOffset c f = BitVec.ofInt 32 (AccessForm.scalar.index c f 0) := by
  cases hx : c.XMode with
  | true =>
    have hext := toInt_signExtendShort f.jkm
    rw [scalarOffset, Cpu.signExtend, AccessForm.index, hx, if_pos rfl, if_pos rfl, if_pos rfl,
      ← hext, BitVec.ofInt_toInt]
  | false =>
    rw [scalarOffset, AccessForm.index, hx, if_neg (by decide), if_neg (by decide),
      BitVec.ofInt_toInt]

theorem applyShortMask_eq (x : CAddr) :
    (CXmpAddr.applyShortMask (CXmpAddr.ofAddr x)).setWidth 32 = BitVec.ofNat 32 (x.toNat % 2 ^ 22) := by
  apply BitVec.eq_of_toNat_eq
  have hmask : (0x3FFFFF#24).toNat = 2 ^ 22 - 1 := rfl
  rw [BitVec.toNat_setWidth, CXmpAddr.applyShortMask, BitVec.toNat_and, hmask,
    Nat.and_two_pow_sub_one_eq_mod, CXmpAddr.ofAddr, BitVec.toNat_setWidth, BitVec.toNat_ofNat]
  omega

theorem scalarAddr_eq : scalarAddr pm c f = AccessForm.scalar.address pm c f 0 := by
  unfold scalarAddr AccessForm.address
  dsimp only
  rw [scalarOffset_eq, add_ofInt]
  have hcuts : AccessForm.scalar.cuts pm c = (pm.isXmp && !c.XmpEnhancedAddressingMode) := rfl
  rw [hcuts]
  split
  · exact applyShortMask_eq _
  · rfl

theorem block_address (n : Nat) :
    c.refA 0 + BitVec.ofNat 32 n = AccessForm.block.address pm c f n := by
  rw [← BitVec.ofInt_natCast, add_ofInt]
  rfl

theorem strided_address (n : Nat) :
    strideAddr (c.signExtend (c.refAk f.k)) c n = AccessForm.strided.address pm c f n := by
  have hstride : c.signExtend (c.refAk f.k) = BitVec.ofInt 32
      (if c.XMode then (CXmpAddr.ofAddr (c.refAk f.k)).toInt else (c.refAk f.k).toInt) := by
    cases hx : c.XMode with
    | true =>
      rw [Cpu.signExtend, hx, if_pos rfl, if_pos rfl, CXmpAddr.signExtend_eq]
      rfl
    | false =>
      rw [Cpu.signExtend, hx, if_neg (by decide), if_neg (by decide), BitVec.ofInt_toInt]
  rw [strideAddr, hstride, ← BitVec.ofInt_natCast, ← BitVec.ofInt_mul, add_ofInt]
  rfl

theorem gathered_address (e : Fin 64) :
    gatherAddr f c e = AccessForm.gathered.address pm c f e.val := by
  have hcut : (c.V f.k e).setWidth 32 = BitVec.ofInt 32 (c.V f.k e).toInt :=
    (BitVec.signExtend_eq_setWidth_of_le (c.V f.k e) (by decide)).symm
  have hindex : AccessForm.gathered.index c f e.val = (c.V f.k e).toInt := dif_pos e.isLt
  rw [gatherAddr, hcut, add_ofInt, ← hindex]
  rfl

end addresses

section decode
variable {pm : Params} {me : Fin pm.cpuCnt} {c₀ : Cpu} {aParcels : CInt}

/-- The decoders of the codes 0100 to 0137: the low digit of the code is no part of it. -/
theorem instImplementations_scalar (pm : Params) (k : Nat) (hk : k < 8) :
    (instImplementations pm)[0o100 + k]? = some (decode010x pm) ∧
      (instImplementations pm)[0o110 + k]? = some (decode011x pm) ∧
      (instImplementations pm)[0o120 + k]? = some (decode012x pm) ∧
      (instImplementations pm)[0o130 + k]? = some (decode013x pm) := by
  interval_cases k <;> exact ⟨rfl, rfl, rfl, rfl⟩

theorem load_accesses {w : CInt → RegWrite} (c : Cpu) (a : CAddr) :
    Accesses me (· = c) [a] (fun _ _ => True) (do
      let v ← readDataMem a
      write (w v)) :=
  Accesses.bind (v := []) (accesses_readDataMem a) fun _ =>
    accesses_write (q := fun _ => True) fun _ _ => trivial

theorem store_accesses (c : Cpu) (a : CAddr) (v : CInt) :
    Accesses me (· = c) [a] (fun _ _ => True) (writeDataMem a v) :=
  (accesses_writeDataMem a v).mono (fun _ h => h) fun _ _ _ => trivial

theorem scalar_accesses (hlo : 0o100 ≤ (extractFields aParcels).gh)
    (hhi : (extractFields aParcels).gh ≤ 0o137) :
    Accesses me (· = c₀) [scalarAddr pm c₀ (extractFields aParcels)] (fun _ _ => True)
      (decode pm true aParcels) := by
  have himpl := fun k hk => instImplementations_scalar pm k hk
  generalize hn : (extractFields aParcels).gh = n at hlo hhi
  by_cases h1 : n < 0o110
  · obtain ⟨h, -⟩ := himpl (n - 0o100) (by omega)
    rw [Nat.add_sub_of_le hlo] at h
    rw [decode_of_gh hn h]
    exact scalarAccess_accesses fun c a => load_accesses _ a
  · by_cases h2 : n < 0o120
    · obtain ⟨-, h, -⟩ := himpl (n - 0o110) (by omega)
      rw [Nat.add_sub_of_le (by omega)] at h
      rw [decode_of_gh hn h]
      exact scalarAccess_accesses fun c a => store_accesses _ a _
    · by_cases h3 : n < 0o130
      · obtain ⟨-, -, h, -⟩ := himpl (n - 0o120) (by omega)
        rw [Nat.add_sub_of_le (by omega)] at h
        rw [decode_of_gh hn h]
        exact scalarAccess_accesses fun c a => load_accesses _ a
      · obtain ⟨-, -, -, h⟩ := himpl (n - 0o130) (by omega)
        rw [Nat.add_sub_of_le (by omega)] at h
        rw [decode_of_gh hn h]
        exact scalarAccess_accesses fun c a => store_accesses _ a _

theorem block_accesses (hlo : 0o034 ≤ (extractFields aParcels).gh)
    (hhi : (extractFields aParcels).gh ≤ 0o037) :
    Accesses me (· = c₀) ((List.range (transferSize c₀ (extractFields aParcels))).map fun n =>
      c₀.refA 0 + BitVec.ofNat 32 n) (fun _ _ => True) (decode pm true aParcels) := by
  generalize hn : (extractFields aParcels).gh = n at hlo hhi
  interval_cases n
  · rw [decode_of_gh hn rfl]
    exact blockLoad_accesses fun _ _ _ => rfl
  · rw [decode_of_gh hn rfl]
    exact blockStore_accesses
  · rw [decode_of_gh hn rfl]
    exact blockLoad_accesses fun _ _ _ => rfl
  · rw [decode_of_gh hn rfl]
    exact blockStore_accesses

theorem Accesses.crayAssert_gh {n : Nat} {l : List CAddr} {f : Fields} {k : Unit → Inst Decoded}
    (hk : Accesses me (· = c₀) l (fun _ _ => True) (k ())) :
    Accesses me (· = c₀) l (fun _ _ => True) (crayAssert (f.gh == n) >>= k) :=
  Accesses.bind (u := []) accesses_crayAssert fun _ => hk

theorem vectorForm_cases {sel : Fin 8} {fm : AccessForm}
    (h : Fields.vectorAccessForm sel = some fm) :
    sel.val = 0 ∧ fm = .strided ∨ sel.val = 1 ∧ fm = .gathered := by
  unfold Fields.vectorAccessForm at h
  split at h
  · cases h
    exact Or.inl ⟨‹_›, rfl⟩
  · cases h
    exact Or.inr ⟨‹_›, rfl⟩
  · cases h

/-- The address of an element, from the registers it is computed with. -/
theorem strided_from {f : Fields} (c : Cpu) (e : Fin 64) (h : AddressesFrom c₀ f e.val c) :
    strided f c₀ c e = AccessForm.strided.address pm c₀ f e.val := by
  rw [← strided_address, strided, strideAddr, strideAddr, h.1]

theorem gathered_from {f : Fields} (c : Cpu) (e : Fin 64) (h : AddressesFrom c₀ f e.val c) :
    gathered f c₀ c e = AccessForm.gathered.address pm c₀ f e.val := by
  rw [← gathered_address, gathered, gatherAddr, gatherAddr, h.1, h.2 e le_rfl]

theorem addressesFrom_self {f : Fields} (n : Nat) : AddressesFrom c₀ f n c₀ := ⟨rfl, fun _ _ => rfl⟩

/-- **A memory instruction makes its accesses**, each at the address of its form, in order. -/
theorem decode_accesses {fm : AccessForm} (hfm : (extractFields aParcels).accessForm = some fm) :
    Accesses me (· = c₀) ((List.range (fm.count c₀ (extractFields aParcels))).map
      (fm.address pm c₀ (extractFields aParcels))) (fun _ _ => True) (decode pm true aParcels) := by
  unfold Fields.accessForm at hfm
  split at hfm
  · rename_i hgh
    cases hfm
    have hone : (List.range 1).map (AccessForm.scalar.address pm c₀ (extractFields aParcels)) =
        [scalarAddr pm c₀ (extractFields aParcels)] := by
      rw [scalarAddr_eq]
      rfl
    rw [AccessForm.count, hone]
    exact scalar_accesses hgh.1 hgh.2
  · split at hfm
    · rename_i hgh
      cases hfm
      have hsum := funext fun n => block_address pm c₀ (extractFields aParcels) n
      rw [AccessForm.count, ← hsum]
      exact block_accesses hgh.1 hgh.2
    · split at hfm
      · rename_i hgh
        rw [decode_of_gh hgh rfl]
        refine Accesses.crayAssert_gh ?_
        rcases vectorForm_cases hfm with ⟨hj, rfl⟩ | ⟨hj, rfl⟩
        · rw [hj]
          exact vectorLoad_accesses fun c e h => strided_from c e h
        · rw [hj]
          exact vectorLoad_accesses fun c e h => gathered_from c e h
      · split at hfm
        · rename_i hgh
          rw [decode_of_gh hgh rfl]
          refine Accesses.crayAssert_gh ?_
          rcases vectorForm_cases hfm with ⟨hi, rfl⟩ | ⟨hi, rfl⟩
          · rw [hi]
            exact vectorStore_accesses fun e => strided_from c₀ e (addressesFrom_self _)
          · rw [hi]
            exact vectorStore_accesses fun e => gathered_from c₀ e (addressesFrom_self _)
        · cases hfm

end decode

end Inst

/-! ## 6. The width of an address -/

/-- The bits of a relative address. -/
def Cpu.addressWidth (pm : Params) (c : Cpu) : Nat :=
  if pm.isXmp && !c.XmpEnhancedAddressingMode then 22 else if c.XMode then 24 else 32

/-- The relative address of base and offset, in the width of the mode. -/
def effectiveAddress (pm : Params) (c : Cpu) (aBase : CAddr) (aIndex : Int) : Int :=
  (aBase.toNat + aIndex) % 2 ^ c.addressWidth pm

/-- The code cuts the sum, or there is nothing to cut. -/
def AccessForm.InWidth (pm : Params) (c : Cpu) (f : Fields) (fm : AccessForm) (n : Nat) : Prop :=
  fm.cuts pm c = true ∨
    ((fm.base c f).toNat + fm.index c f n) % 2 ^ 32 < 2 ^ c.addressWidth pm

instance (pm : Params) (c : Cpu) (f : Fields) (fm : AccessForm) (n : Nat) :
    Decidable (fm.InWidth pm c f n) := inferInstanceAs (Decidable (_ ∨ _))

section width
variable {pm : Params} {c : Cpu} {f : Fields} {fm : AccessForm}

theorem addressWidth_le (pm : Params) (c : Cpu) : c.addressWidth pm ≤ 32 := by
  unfold Cpu.addressWidth
  split
  · decide
  · split
    · decide
    · decide

theorem toNat_ofInt (x : Int) : ((BitVec.ofInt 32 x).toNat : Int) = x % 2 ^ 32 := by
  rw [BitVec.toNat_ofInt]
  exact Int.toNat_of_nonneg (Int.emod_nonneg x (by decide))

/-- **The address of the code against the one of the mode.** -/
theorem AccessForm.address_iff (n : Nat) :
    ((fm.address pm c f n).toNat : Int) =
        effectiveAddress pm c (fm.base c f) (fm.index c f n) ↔ fm.InWidth pm c f n := by
  unfold AccessForm.address AccessForm.InWidth effectiveAddress
  dsimp only
  generalize ((fm.base c f).toNat + fm.index c f n : Int) = x
  have hdvd : (2 ^ c.addressWidth pm : Int) ∣ 2 ^ 32 := pow_dvd_pow 2 (addressWidth_le pm c)
  have hsum := toNat_ofInt x
  cases hcuts : fm.cuts pm c with
  | true =>
    have hw : c.addressWidth pm = 22 := by
      simp only [AccessForm.cuts, Bool.and_eq_true] at hcuts
      rw [Cpu.addressWidth, if_pos (by simp [hcuts.2])]
    refine ⟨fun _ => Or.inl rfl, fun _ => ?_⟩
    rw [if_pos rfl, BitVec.toNat_ofNat, hw]
    omega
  | false =>
    rw [if_neg (by decide), hsum, ← Int.emod_emod_of_dvd x hdvd]
    constructor
    · intro h
      refine Or.inr ?_
      rw [h]
      exact Int.emod_lt_of_pos _ (by positivity)
    · rintro (h | h)
      · cases h
      · exact (Int.emod_eq_of_lt (Int.emod_nonneg x (by decide)) h).symm

end width

/-- An X-MP with one processor. -/
abbrev xmp4 : Params := Params.standard .XMP4xx 1 Params.one_lt

/-- It is in X mode, `A0` and `A2` hold the last address of 22 bits, `A1` holds 2, and the program
    may use all of the eight million words. -/
def lastShortAddress : System xmp4 :=
  (System.powerOn xmp4).modifyCpu (0 : Fin 1) fun c =>
    { c with
      A := fun r => if r = 1 then 2 else 0x3FFFFF
      DataLimitAddr := 0x800000
      XMode := true
      AddrMask := 0x00ffffff }

/-- `T00,A1 ,A0`: two words are loaded. -/
def loadTwoWords : CInt := 0o036100 <<< 32

/-- `S1 1,A2`: the word behind `A2` is loaded. -/
def loadNextWord : CInt := 0o122100 <<< 32 ||| 1 <<< 16

end CraySim
