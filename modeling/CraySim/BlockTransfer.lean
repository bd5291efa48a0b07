/-
  Subject:   Registers saved to memory and restored: 0034 to 0037, 0176 and 0177.

  A block transfer names a register and an address in every round. The register index wraps around
  at 64, so with more than 64 rounds some registers are stored twice; the addresses run on. They
  wrap around at the size of the memory, so the words of a range need not be distinct.

  * `BlockFits`, `VectorFits` -- the addresses are in reach, and no word serves two registers,
  * `storeRound_run`, `loadRound_run`, … -- a round of each loop,
  * `blockStore_run`, `blockLoad_run`, … -- the runs of the instructions,
  * `Saved`, `restore_B`, `restore_T`, `restore_V` -- what a store leaves and a load gives back,
  * `save_restore` -- **what is stored is restored**, and nothing else changes.
-/
import CraySim.BitMatrix

namespace CraySim

open SysRun

/-! ## 1. Words and registers of a transfer -/

/-- The first byte of the word an address falls on. -/
def wordPlace (pm : Params) (c : Cpu) (aAddr : CAddr) : Nat := memIndex (dataWord pm c aAddr)

/-- An access is neither refused nor ignored. -/
def InReach (pm : Params) (c : Cpu) (aAddr : CAddr) : Prop :=
  dataWord pm c aAddr < c.DataLimitAddr.toNat

/-- The address of a round. -/
def blockAddr (c : Cpu) (idx : Nat) : CAddr := c.refA 0 + BitVec.ofNat 32 idx

/-- The register of a round. -/
def blockReg (f : Fields) (idx : Nat) : Fin 64 := f.jk + Fin.ofNat 64 idx

/-- The registers of the first `n` rounds. -/
def Named (f : Fields) (n : Nat) (r : Fin 64) : Prop := ∃ idx < n, blockReg f idx = r

instance (f : Fields) (n : Nat) (r : Fin 64) : Decidable (Named f n r) :=
  inferInstanceAs (Decidable (∃ idx < n, blockReg f idx = r))

/-- The addresses of a block are in reach, and a word is used again for the same register only. -/
structure BlockFits (pm : Params) (c : Cpu) (f : Fields) (n : Nat) : Prop where
  reach : ∀ idx < n, InReach pm c (blockAddr c idx)
  apart : ∀ a < n, ∀ b < n, blockReg f a ≠ blockReg f b →
    wordPlace pm c (blockAddr c a) ≠ wordPlace pm c (blockAddr c b)

theorem memIndex_apart {a b : Nat} (h : memIndex a ≠ memIndex b) :
    memIndex a + 8 ≤ memIndex b ∨ memIndex b + 8 ≤ memIndex a := by
  unfold memIndex at *
  omega

theorem blockReg_zero (f : Fields) : blockReg f 0 = f.jk := by
  simp [blockReg]

theorem blockReg_succ (f : Fields) (idx : Nat) : blockReg f (idx + 1) = blockReg f idx + 1 := by
  refine Fin.ext ?_
  simp only [blockReg, Fin.val_add, Fin.val_ofNat, Fin.val_one]
  omega

theorem named_succ (f : Fields) (n : Nat) (r : Fin 64) :
    Named f (n + 1) r ↔ Named f n r ∨ r = blockReg f n := by
  constructor
  · rintro ⟨idx, hidx, hr⟩
    obtain hlt | rfl := Nat.lt_succ_iff_lt_or_eq.mp hidx
    · exact .inl ⟨idx, hlt, hr⟩
    · exact .inr hr.symm
  · rintro (⟨idx, hidx, hr⟩ | rfl)
    · exact ⟨idx, by omega, hr⟩
    · exact ⟨n, by omega, rfl⟩

/-- The registers changed by a program in between. -/
def Cpu.withB (c : Cpu) (B : Fin 64 → CAddr) : Cpu := { c with B := B }

def Cpu.withT (c : Cpu) (T : Fin 64 → CInt) : Cpu := { c with T := T }

def Cpu.withV (c : Cpu) (V : Fin 8 → Fin 64 → CInt) : Cpu := { c with V := V }

/-! ## 2. Runs -/

namespace Inst

open Program

section run
variable {pm : Params} {me : Fin pm.cpuCnt} {s : System pm} {f : Fields} {aGh : Nat}

theorem run_writeDataMem {a : CAddr} {v : CInt} (h : InReach pm (s.mCpus me) a) :
    (writeDataMem a v).run (handler me) s =
      (.ok (), { s with mMemory := memWrite s.mMemory (dataWord pm (s.mCpus me) a) v }) := by
  have hw := @writeDataMem_eq pm me s a v
  rw [if_neg (by unfold InReach at h; omega)] at hw
  exact Program.run_ask_ok hw

theorem run_writeDataMem_bind {α : Type} {a : CAddr} {v : CInt} {k : Unit → Inst α}
    (h : InReach pm (s.mCpus me) a) :
    (writeDataMem a v >>= k).run (handler me) s = (k ()).run (handler me)
      { s with mMemory := memWrite s.mMemory (dataWord pm (s.mCpus me) a) v } := by
  rw [run_bind, Run.bind_apply_ok (run_writeDataMem h)]

theorem run_readDataMem_bind {α : Type} {a : CAddr} {k : CInt → Inst α}
    (h : InReach pm (s.mCpus me) a) :
    (readDataMem a >>= k).run (handler me) s =
      (k (memRead s.mMemory (dataWord pm (s.mCpus me) a))).run (handler me) s := by
  have hrun : (readDataMem a).run (handler me) s =
      (.ok (memRead s.mMemory (dataWord pm (s.mCpus me) a)), s) := by
    have hr := @readDataMem_eq pm me s a
    rw [if_neg (by unfold InReach at h; omega)] at hr
    exact Program.run_ask_ok hr
  rw [run_bind, Run.bind_apply_ok hrun]

/-! ### Block transfers -/

/-- The memory after the first `n` rounds of a store. -/
def savedBlock (pm : Params) (c : Cpu) (f : Fields) (r : Cpu → Fin 64 → CInt) (n : Nat)
    (mem : Nat → BitVec 8) : Nat → BitVec 8 :=
  ByteStore.scatter 8 (fun idx => wordPlace pm c (blockAddr c idx)) (fun idx => r c (blockReg f idx))
    n mem

/-- One round of a store, with the register it is about. -/
def storeRound (r : Cpu → Fin 64 → CInt) (idx : Nat) (reg : Fin 64) : Inst (Fin 64) := do
  let c ← cpu
  writeDataMem (blockAddr c idx) (r c reg)
  pure (reg + 1)

theorem storeRound_run {r : Cpu → Fin 64 → CInt} {idx : Nat} {reg : Fin 64}
    (h : InReach pm (s.mCpus me) (blockAddr (s.mCpus me) idx)) :
    (storeRound r idx reg).run (handler me) s = (.ok (reg + 1), { s with
      mMemory := memWrite s.mMemory (dataWord pm (s.mCpus me) (blockAddr (s.mCpus me) idx))
        (r (s.mCpus me) reg) }) := by
  rw [storeRound, run_cpu_bind, run_writeDataMem_bind h]
  rfl

/-- **The run of a block store.** -/
theorem blockStore_run {r : Cpu → Fin 64 → CInt} (hgh : f.gh = aGh)
    (hreach : ∀ idx < transferSize (s.mCpus me) f,
      InReach pm (s.mCpus me) (blockAddr (s.mCpus me) idx)) :
    (blockStore true f aGh r).run (handler me) s = (.ok ⟨1, false⟩, { s with
      mMemory := savedBlock pm (s.mCpus me) f r (transferSize (s.mCpus me) f) s.mMemory }) := by
  have hround : ∀ n, n < transferSize (s.mCpus me) f →
      (storeRound r n (blockReg f n)).run (handler me)
          { s with mMemory := savedBlock pm (s.mCpus me) f r n s.mMemory } =
        (.ok (blockReg f (n + 1)),
          { s with mMemory := savedBlock pm (s.mCpus me) f r (n + 1) s.mMemory }) := by
    intro n hn
    rw [blockReg_succ]
    exact storeRound_run (hreach n hn)
  have hloop := run_foldUpTo _ hround
  rw [blockReg_zero] at hloop
  rw [blockStore, crayAssert_bind (beq_iff_eq.mpr hgh), if_pos rfl, run_cpu_bind, run_bind]
  exact Run.bind_apply_ok hloop

/-- The registers after the first `n` rounds of a load of the values `v`. -/
def loadedBlock (w : Fin 64 → CInt → RegWrite) (f : Fields) (v : Nat → CInt) : Nat → Cpu → Cpu
  | 0, c => c
  | n + 1, c => (w (blockReg f n) (v n)).apply (loadedBlock w f v n c)

/-- What the addresses depend on. -/
structure SameAddressing (c c' : Cpu) : Prop where
  A : c'.A = c.A
  AddrMask : c'.AddrMask = c.AddrMask
  DataBaseAddr : c'.DataBaseAddr = c.DataBaseAddr
  DataLimitAddr : c'.DataLimitAddr = c.DataLimitAddr

section addressing
variable {c c' : Cpu}

theorem SameAddressing.refl (c : Cpu) : SameAddressing c c := ⟨rfl, rfl, rfl, rfl⟩

theorem SameAddressing.trans {c'' : Cpu} (h : SameAddressing c c') (h' : SameAddressing c' c'') :
    SameAddressing c c'' :=
  ⟨h'.A.trans h.A, h'.AddrMask.trans h.AddrMask, h'.DataBaseAddr.trans h.DataBaseAddr,
    h'.DataLimitAddr.trans h.DataLimitAddr⟩

theorem SameAddressing.refA_eq (h : SameAddressing c c') (r : Fin 8) : c'.refA r = c.refA r := by
  rw [Cpu.refA, Cpu.refA, h.A, h.AddrMask]

theorem SameAddressing.blockAddr_eq (h : SameAddressing c c') (idx : Nat) :
    blockAddr c' idx = blockAddr c idx := by
  rw [blockAddr, blockAddr, h.refA_eq]

theorem SameAddressing.dataWord_eq (h : SameAddressing c c') (a : CAddr) :
    dataWord pm c' a = dataWord pm c a := by
  rw [dataWord, dataWord, h.DataBaseAddr]

theorem SameAddressing.inReach_iff (h : SameAddressing c c') (a : CAddr) :
    InReach pm c' a ↔ InReach pm c a := by
  rw [InReach, InReach, h.dataWord_eq, h.DataLimitAddr]

end addressing

variable {w : Fin 64 → CInt → RegWrite}

theorem sameAddressing_loadedBlock {v : Nat → CInt}
    (hw : ∀ r v c, SameAddressing c ((w r v).apply c)) (n : Nat) (c : Cpu) :
    SameAddressing c (loadedBlock w f v n c) := by
  induction n with
  | zero => exact .refl c
  | succ n ih => exact ih.trans (hw _ _ _)

/-- The word of a round. -/
def blockWord (s : System pm) (me : Fin pm.cpuCnt) (idx : Nat) : CInt :=
  memRead s.mMemory (dataWord pm (s.mCpus me) (blockAddr (s.mCpus me) idx))

/-- One round of a load, with the register it is about. -/
def loadRound (w : Fin 64 → CInt → RegWrite) (idx : Nat) (reg : Fin 64) : Inst (Fin 64) := do
  let c ← cpu
  let v ← readDataMem (blockAddr c idx)
  write (w reg v)
  pure (reg + 1)

theorem loadRound_run {n : Nat} (hw : ∀ r v c, SameAddressing c ((w r v).apply c))
    (hn : InReach pm (s.mCpus me) (blockAddr (s.mCpus me) n)) :
    (loadRound w n (blockReg f n)).run (handler me)
        (s.modifyCpu me (loadedBlock w f (blockWord s me) n)) =
      (.ok (blockReg f (n + 1)), s.modifyCpu me (loadedBlock w f (blockWord s me) (n + 1))) := by
  have hsame := sameAddressing_loadedBlock (v := blockWord s me) (f := f) hw n (s.mCpus me)
  have hn' : InReach pm ((s.modifyCpu me (loadedBlock w f (blockWord s me) n)).mCpus me)
      (blockAddr (loadedBlock w f (blockWord s me) n (s.mCpus me)) n) := by
    rw [System.modifyCpu_self, hsame.inReach_iff, hsame.blockAddr_eq]
    exact hn
  rw [loadRound, run_cpu_bind, System.modifyCpu_self, run_readDataMem_bind hn', run_write_bind,
    System.modifyCpu_self, hsame.dataWord_eq, hsame.blockAddr_eq, System.modifyCpu_comp,
    blockReg_succ]
  rfl

/-- **The run of a block load.** -/
theorem blockLoad_run (hgh : f.gh = aGh) (hw : ∀ r v c, SameAddressing c ((w r v).apply c))
    (hreach : ∀ idx < transferSize (s.mCpus me) f,
      InReach pm (s.mCpus me) (blockAddr (s.mCpus me) idx)) :
    (blockLoad true f aGh w).run (handler me) s = (.ok ⟨1, false⟩, s.modifyCpu me
      (loadedBlock w f (blockWord s me) (transferSize (s.mCpus me) f))) := by
  have hstart : s.modifyCpu me (loadedBlock w f (blockWord s me) 0) = s := System.modifyCpu_id s me
  have hloop := run_foldUpTo (b := blockReg f) (transferSize (s.mCpus me) f)
    fun n hn => loadRound_run hw (hreach n hn)
  rw [blockReg_zero, hstart] at hloop
  rw [blockLoad, crayAssert_bind (beq_iff_eq.mpr hgh), if_pos rfl, run_cpu_bind, run_bind]
  exact Run.bind_apply_ok hloop

theorem loadedBlock_succ {v : Nat → CInt} {n : Nat} {c : Cpu} :
    loadedBlock w f v (n + 1) c = (w (blockReg f n) (v n)).apply (loadedBlock w f v n c) := rfl

theorem loadedBlock_congr {v v' : Nat → CInt} {n : Nat}
    (h : ∀ idx < n, v idx = v' idx) (c : Cpu) : loadedBlock w f v n c = loadedBlock w f v' n c := by
  induction n with
  | zero => rfl
  | succ n ih =>
    rw [loadedBlock_succ, loadedBlock_succ, ih fun idx hidx => h idx (by omega), h n (by omega)]

/-- The registers after `n` rounds of a load: those named, and the others as they were. -/
def restored {α : Type} (f : Fields) (n : Nat) (x y : Fin 64 → α) (r : Fin 64) : α :=
  if Named f n r then x r else y r

theorem restored_zero {α : Type} (x y : Fin 64 → α) : restored f 0 x y = y := by
  funext r
  exact if_neg fun h => absurd h.choose_spec.1 (Nat.not_lt_zero _)

theorem update_restored {α : Type} (x y : Fin 64 → α) (n : Nat) :
    Function.update (restored f n x y) (blockReg f n) (x (blockReg f n)) =
      restored f (n + 1) x y := by
  funext r
  unfold restored
  by_cases hr : r = blockReg f n
  · rw [hr, Function.update_self, if_pos ((named_succ f n _).mpr (.inr rfl))]
  · rw [Function.update_of_ne hr]
    by_cases hn : Named f n r
    · rw [if_pos hn, if_pos ((named_succ f n r).mpr (.inl hn))]
    · rw [if_neg hn, if_neg fun h => ((named_succ f n r).mp h).elim hn hr]

theorem loadedBlock_B (x : Fin 64 → CInt) (n : Nat) (c : Cpu) :
    loadedBlock (fun reg v => .B reg (v.setWidth 32)) f (fun idx => x (blockReg f idx)) n c =
      c.withB (restored f n (fun r => (x r).setWidth 32 &&& c.AddrMask) c.B) := by
  induction n with
  | zero =>
    rw [restored_zero]
    rfl
  | succ n ih =>
    rw [loadedBlock_succ, ih, RegWrite.apply]
    exact congrArg c.withB (update_restored (fun r => (x r).setWidth 32 &&& c.AddrMask) c.B n)

theorem loadedBlock_T (x : Fin 64 → CInt) (n : Nat) (c : Cpu) :
    loadedBlock (fun reg v => .T reg v) f (fun idx => x (blockReg f idx)) n c =
      c.withT (restored f n x c.T) := by
  induction n with
  | zero =>
    rw [restored_zero]
    rfl
  | succ n ih =>
    rw [loadedBlock_succ, ih, RegWrite.apply]
    exact congrArg c.withT (update_restored x c.T n)

/-! ### Vectors -/

/-- One round of a vector store. -/
def elementStoreRound (f : Fields) (addr : Cpu → Fin 64 → CAddr) (idx : Nat) : Inst Unit := do
  let e ← element idx
  let c ← cpu
  writeDataMem (addr c e) (c.V f.j e)

theorem elementStoreRound_run {addr : Cpu → Fin 64 → CAddr} {n : Nat} (hn : n < 64)
    (h : InReach pm (s.mCpus me) (addr (s.mCpus me) (Fin.ofNat 64 n))) :
    (elementStoreRound f addr n).run (handler me) s = (.ok (), { s with
      mMemory := memWrite s.mMemory (dataWord pm (s.mCpus me) (addr (s.mCpus me) (Fin.ofNat 64 n)))
        ((s.mCpus me).V f.j (Fin.ofNat 64 n)) }) := by
  have he : (⟨n, hn⟩ : Fin 64) = Fin.ofNat 64 n := Fin.ext (Nat.mod_eq_of_lt hn).symm
  rw [elementStoreRound, element_bind hn, run_cpu_bind, he, run_writeDataMem h]

/-- **The run of a vector store.** -/
theorem vectorStore_run {addr : Cpu → Cpu → Fin 64 → CAddr} (hvl : (s.mCpus me).VL.toNat ≤ 64)
    (hreach : ∀ e : Fin 64, e.val < (s.mCpus me).VL.toNat →
      InReach pm (s.mCpus me) (addr (s.mCpus me) (s.mCpus me) e)) :
    (vectorStore true f addr).run (handler me) s = (.ok ⟨1, false⟩, { s with
      mMemory := ByteStore.scatter 8
        (fun n => wordPlace pm (s.mCpus me) (addr (s.mCpus me) (s.mCpus me) (Fin.ofNat 64 n)))
        (fun n => (s.mCpus me).V f.j (Fin.ofNat 64 n)) (s.mCpus me).VL.toNat s.mMemory }) := by
  have hvl' : (s.mCpus me).VL ≤ 64 := hvl
  have hround : ∀ n, n < (s.mCpus me).VL.toNat →
      (elementStoreRound f (addr (s.mCpus me)) n).run (handler me) { s with
        mMemory := ByteStore.scatter 8
          (fun n => wordPlace pm (s.mCpus me) (addr (s.mCpus me) (s.mCpus me) (Fin.ofNat 64 n)))
          (fun n => (s.mCpus me).V f.j (Fin.ofNat 64 n)) n s.mMemory } = (.ok (), { s with
        mMemory := ByteStore.scatter 8
          (fun n => wordPlace pm (s.mCpus me) (addr (s.mCpus me) (s.mCpus me) (Fin.ofNat 64 n)))
          (fun n => (s.mCpus me).V f.j (Fin.ofNat 64 n)) (n + 1) s.mMemory }) := by
    intro n hn
    refine elementStoreRound_run (by omega) (hreach _ ?_)
    rwa [Fin.val_ofNat, Nat.mod_eq_of_lt (by omega)]
  rw [vectorStore, if_pos rfl, run_cpu_bind, crayAssert_bind (decide_eq_true hvl'), run_bind]
  exact Run.bind_apply_ok (run_forUpTo _ hround)

/-- The word of an element. -/
def elementWord (s : System pm) (me : Fin pm.cpuCnt) (addr : Cpu → Fin 64 → CAddr)
    (e : Fin 64) : CInt :=
  memRead s.mMemory (dataWord pm (s.mCpus me) (addr (s.mCpus me) e))

/-- One round of a vector load. -/
def elementLoadRound (f : Fields) (addr : Cpu → Fin 64 → CAddr) (idx : Nat) : Inst Unit := do
  let e ← element idx
  let c ← cpu
  let v ← readDataMem (addr c e)
  write (.V f.i e v)

/-- **One round**: the address of the element is what it was at the start. -/
theorem elementLoadRound_run {addr : Cpu → Fin 64 → CAddr} {n : Nat} (hn : n < 64)
    (haddr : ∀ v m (e : Fin 64), m ≤ e.val →
      addr ((s.mCpus me).storeElements f.i v m) e = addr (s.mCpus me) e)
    (h : InReach pm (s.mCpus me) (addr (s.mCpus me) ⟨n, hn⟩)) :
    (elementLoadRound f addr n).run (handler me) (s.storeElements me f.i (elementWord s me addr) n) =
      (.ok (), s.storeElements me f.i (elementWord s me addr) (n + 1)) := by
  have ha := haddr (elementWord s me addr) n ⟨n, hn⟩ le_rfl
  have hsame : SameAddressing (s.mCpus me)
      ((s.mCpus me).storeElements f.i (elementWord s me addr) n) := ⟨rfl, rfl, rfl, rfl⟩
  have h' : InReach pm ((s.storeElements me f.i (elementWord s me addr) n).mCpus me)
      (addr ((s.mCpus me).storeElements f.i (elementWord s me addr) n) ⟨n, hn⟩) := by
    rw [System.storeElements_mCpus, hsame.inReach_iff, ha]
    exact h
  rw [elementLoadRound, element_bind hn, run_cpu_bind, System.storeElements_mCpus,
    run_readDataMem_bind h', run_write, System.storeElements_mCpus, hsame.dataWord_eq, ha]
  exact congrArg (Prod.mk _) (System.storeElements_succ _ _ _ _ _ rfl)

/-- **The run of a vector load**, which may overwrite what its addresses come from, behind itself. -/
theorem vectorLoad_run {addr : Cpu → Cpu → Fin 64 → CAddr} (hvl : (s.mCpus me).VL.toNat ≤ 64)
    (haddr : ∀ v n (e : Fin 64), n ≤ e.val →
      addr (s.mCpus me) ((s.mCpus me).storeElements f.i v n) e = addr (s.mCpus me) (s.mCpus me) e)
    (hreach : ∀ e : Fin 64, e.val < (s.mCpus me).VL.toNat →
      InReach pm (s.mCpus me) (addr (s.mCpus me) (s.mCpus me) e)) :
    (vectorLoad true f addr).run (handler me) s =
      (.ok ⟨1, false⟩, (s.storeElements me f.i (elementWord s me (addr (s.mCpus me)))
        (s.mCpus me).VL.toNat).modifyCpu me RegWrite.vectorUsed.apply) := by
  have hvl' : (s.mCpus me).VL ≤ 64 := hvl
  have hround : ∀ n, n < (s.mCpus me).VL.toNat →
      (elementLoadRound f (addr (s.mCpus me)) n).run (handler me)
          (s.storeElements me f.i (elementWord s me (addr (s.mCpus me))) n) =
        (.ok (), s.storeElements me f.i (elementWord s me (addr (s.mCpus me))) (n + 1)) :=
    fun n hn => elementLoadRound_run (by omega) haddr (hreach ⟨n, by omega⟩ hn)
  have hloop := run_forUpTo _ hround
  rw [System.storeElements_zero] at hloop
  rw [vectorLoad, if_pos rfl, run_cpu_bind, crayAssert_bind (decide_eq_true hvl'), run_bind]
  exact (Run.bind_apply_ok hloop).trans run_vectorUsed

end run

end Inst

/-! ## 3. Saved and restored -/

open Inst

section saved
variable {pm : Params}

/-- The first `n` words of a range hold the values, and nothing else has changed. -/
structure Saved (c : Cpu) (addr : Nat → CAddr) (value : Nat → CInt) (n : Nat) (s s' : System pm) :
    Prop where
  words : ∀ idx < n, memRead s'.mMemory (dataWord pm c (addr idx)) = value idx
  others : ∀ x, (∀ idx < n, x < wordPlace pm c (addr idx) ∨ wordPlace pm c (addr idx) + 8 ≤ x) →
    s'.mMemory x = s.mMemory x
  rest : s' = { s with mMemory := s'.mMemory }

variable {s : System pm}

/-- **Scattered words are saved**, where a word is used again for the same value only. -/
theorem saved_scatter {c : Cpu} {addr : Nat → CAddr} {value : Nat → CInt} {n : Nat}
    (hsame : ∀ a < n, ∀ b < n, wordPlace pm c (addr a) = wordPlace pm c (addr b) →
      value a = value b) :
    Saved c addr value n s { s with
      mMemory := ByteStore.scatter 8 (fun idx => wordPlace pm c (addr idx)) value n s.mMemory } where
  words _ hidx := ByteStore.load_scatter hsame (fun _ _ _ _ => memIndex_apart) hidx
  others _ hx := ByteStore.scatter_of_outside hx
  rest := rfl

theorem saved_savedBlock {c : Cpu} {f : Fields} {n : Nat} (hfits : BlockFits pm c f n)
    (r : Cpu → Fin 64 → CInt) :
    Saved c (blockAddr c) (fun idx => r c (blockReg f idx)) n s
      { s with mMemory := savedBlock pm c f r n s.mMemory } := by
  refine saved_scatter fun a ha b hb hplace => ?_
  by_cases hreg : blockReg f a = blockReg f b
  · rw [hreg]
  · exact absurd hplace (hfits.apart a ha b hb hreg)

end saved

/-- The memory is seen in the same way: the addressing, and the count of a block. -/
theorem transferSize_congr {c c' : Cpu} (h : SameAddressing c c') {f g : Fields} (hi : g.i = f.i) :
    transferSize c' g = transferSize c f := by
  rw [transferSize, transferSize, h.refA_eq, hi]

theorem blockReg_congr {f g : Fields} (hjk : g.jk = f.jk) : blockReg g = blockReg f := by
  funext idx
  rw [blockReg, blockReg, hjk]

section restore
variable {pm : Params} {me : Fin pm.cpuCnt} {s s' : System pm} {f g : Fields}

/-- **A block is loaded back**, whatever the registers hold by then: every round reads the value
    that was stored for its register. -/
theorem blockLoad_saved {w : Fin 64 → CInt → RegWrite} {x : Fin 64 → CInt} {aGh : Nat} {e : Cpu → Cpu}
    (hgh : g.gh = aGh) (hi : g.i = f.i) (hjk : g.jk = f.jk)
    (hw : ∀ r v c, SameAddressing c ((w r v).apply c)) (he : ∀ c, SameAddressing c (e c))
    (hreach : ∀ idx < transferSize (s.mCpus me) f,
      InReach pm (s.mCpus me) (blockAddr (s.mCpus me) idx))
    (hsaved : Saved (s.mCpus me) (blockAddr (s.mCpus me)) (fun idx => x (blockReg f idx))
      (transferSize (s.mCpus me) f) s s') :
    (blockLoad true g aGh w).run (handler me) (s'.modifyCpu me e) =
      (.ok ⟨1, false⟩, s'.modifyCpu me fun c =>
        loadedBlock w f (fun idx => x (blockReg f idx)) (transferSize (s.mCpus me) f) (e c)) := by
  have hmc : s'.mCpus me = s.mCpus me := by rw [hsaved.rest]
  have hsame : SameAddressing (s.mCpus me) ((s'.modifyCpu me e).mCpus me) := by
    rw [System.modifyCpu_self, hmc]
    exact he _
  have hsize := transferSize_congr hsame hi
  have hload := @blockLoad_run pm me (s'.modifyCpu me e) g aGh w hgh hw fun idx hidx => by
    rw [hsame.inReach_iff, hsame.blockAddr_eq]
    exact hreach idx (hsize ▸ hidx)
  rw [hload, hsize, System.modifyCpu_comp]
  have hvalues : ∀ idx < transferSize (s.mCpus me) f,
      blockWord (s'.modifyCpu me e) me idx = x (blockReg f idx) := by
    intro idx hidx
    rw [blockWord, hsame.dataWord_eq, hsame.blockAddr_eq]
    exact hsaved.words idx hidx
  have hregs : ∀ (v : Nat → CInt) n c, loadedBlock w g v n c = loadedBlock w f v n c := by
    intro v n c
    induction n with
    | zero => rfl
    | succ n ih => rw [loadedBlock_succ, loadedBlock_succ, ih, blockReg_congr hjk]
  simp only [hregs, loadedBlock_congr hvalues]

/-- A register `B` is seen through the mask, before it is saved and after it is restored. -/
theorem refB_masked (c : Cpu) (r : Fin 64) :
    c.AddrMask &&& (((c.refB r).setWidth 64).setWidth 32 &&& c.AddrMask) = c.refB r := by
  have hmask : c.AddrMask &&& c.refB r = c.refB r := by
    rw [Cpu.refB, ← BitVec.and_assoc, BitVec.and_self]
  rw [BitVec.setWidth_setWidth_of_le _ (by decide), BitVec.setWidth_eq, BitVec.and_comm (c.refB r),
    ← BitVec.and_assoc, BitVec.and_self, hmask]

/-- The registers `B` are restored. -/
theorem restore_B {aGh : Nat} (hgh : g.gh = aGh) (hi : g.i = f.i) (hjk : g.jk = f.jk)
    (hreach : ∀ idx < transferSize (s.mCpus me) f,
      InReach pm (s.mCpus me) (blockAddr (s.mCpus me) idx))
    (hsaved : Saved (s.mCpus me) (blockAddr (s.mCpus me))
      (fun idx => ((s.mCpus me).refB (blockReg f idx)).setWidth 64)
      (transferSize (s.mCpus me) f) s s') (B : Fin 64 → CAddr) :
    ∃ s'', (blockLoad true g aGh fun reg v => .B reg (v.setWidth 32)).run (handler me)
        (s'.modifyCpu me fun c => c.withB B) = (.ok ⟨1, false⟩, s'') ∧
      (s'' = s'.modifyCpu me fun c => c.withB (s''.mCpus me).B) ∧
      ∀ r, if Named f (transferSize (s.mCpus me) f) r then
          (s''.mCpus me).refB r = (s.mCpus me).refB r
        else (s''.mCpus me).B r = B r := by
  have hmc : s'.mCpus me = s.mCpus me := by rw [hsaved.rest]
  have hload := blockLoad_saved (w := fun reg v => .B reg (v.setWidth 32))
    (x := fun r => ((s.mCpus me).refB r).setWidth 64) (e := fun c => c.withB B) hgh hi hjk
    (fun _ _ _ => ⟨rfl, rfl, rfl, rfl⟩) (fun _ => ⟨rfl, rfl, rfl, rfl⟩) hreach hsaved
  have hB := loadedBlock_B (f := f) (fun r => ((s.mCpus me).refB r).setWidth 64)
    (transferSize (s.mCpus me) f) ((s'.mCpus me).withB B)
  refine ⟨_, hload, ?_, fun r => ?_⟩
  · rw [System.modifyCpu_self, hB]
    exact System.modifyCpu_congr hB
  · split
    · next hr =>
      rw [Cpu.refB, System.modifyCpu_self, hB, hmc]
      exact (congrArg ((s.mCpus me).AddrMask &&& ·) (if_pos hr)).trans (refB_masked _ _)
    · next hr =>
      rw [System.modifyCpu_self, hB]
      exact if_neg hr

/-- The registers `T` are restored. -/
theorem restore_T {aGh : Nat} (hgh : g.gh = aGh) (hi : g.i = f.i) (hjk : g.jk = f.jk)
    (hreach : ∀ idx < transferSize (s.mCpus me) f,
      InReach pm (s.mCpus me) (blockAddr (s.mCpus me) idx))
    (hsaved : Saved (s.mCpus me) (blockAddr (s.mCpus me))
      (fun idx => (s.mCpus me).refT (blockReg f idx)) (transferSize (s.mCpus me) f) s s')
    (T : Fin 64 → CInt) :
    ∃ s'', (blockLoad true g aGh fun reg v => .T reg v).run (handler me)
        (s'.modifyCpu me fun c => c.withT T) = (.ok ⟨1, false⟩, s'') ∧
      (s'' = s'.modifyCpu me fun c => c.withT (s''.mCpus me).T) ∧
      ∀ r, if Named f (transferSize (s.mCpus me) f) r then
          (s''.mCpus me).refT r = (s.mCpus me).refT r
        else (s''.mCpus me).T r = T r := by
  have hload := blockLoad_saved (w := fun reg v => .T reg v) (x := (s.mCpus me).refT)
    (e := fun c => c.withT T) hgh hi hjk (fun _ _ _ => ⟨rfl, rfl, rfl, rfl⟩)
    (fun _ => ⟨rfl, rfl, rfl, rfl⟩) hreach hsaved
  have hT := loadedBlock_T (f := f) (s.mCpus me).refT (transferSize (s.mCpus me) f)
    ((s'.mCpus me).withT T)
  refine ⟨_, hload, ?_, fun r => ?_⟩
  · rw [System.modifyCpu_self, hT]
    exact System.modifyCpu_congr hT
  · split
    · next hr =>
      rw [Cpu.refT, System.modifyCpu_self, hT]
      exact if_pos hr
    · next hr =>
      rw [System.modifyCpu_self, hT]
      exact if_neg hr

end restore

/-! ## 4. Vectors -/

/-- The address of an element: with a stride, or with a vector of offsets. -/
def elementAddr (f : Fields) (indexed : Bool) : Cpu → Cpu → Fin 64 → CAddr :=
  if indexed then gathered f else strided f

/-- The elements of a vector are in reach, and each of them has a word of its own. -/
structure VectorFits (pm : Params) (c : Cpu) (addr : Fin 64 → CAddr) : Prop where
  reach : ∀ e : Fin 64, e.val < c.VL.toNat → InReach pm c (addr e)
  apart : ∀ a b : Fin 64, a.val < c.VL.toNat → b.val < c.VL.toNat → a ≠ b →
    wordPlace pm c (addr a) ≠ wordPlace pm c (addr b)

section vectors
variable {pm : Params} {me : Fin pm.cpuCnt} {s : System pm} {f g : Fields} {indexed : Bool}

theorem decode0177_eq (hgh : f.gh = 0o177) (hi : f.i.val = indexed.toNat) :
    decode0177 true f = vectorStore true f (elementAddr f indexed) := by
  rw [decode0177, crayAssert_bind (beq_iff_eq.mpr hgh), hi]
  cases indexed with
  | true => rfl
  | false => rfl

theorem decode0176_eq (hgh : f.gh = 0o176) (hj : f.j.val = indexed.toNat) :
    decode0176 true f = vectorLoad true f (elementAddr f indexed) := by
  rw [decode0176, crayAssert_bind (beq_iff_eq.mpr hgh), hj]
  cases indexed with
  | true => rfl
  | false => rfl

/-- A load does not change the address of an element that is still to come. -/
theorem elementAddr_behind (c : Cpu) (i : Fin 8) (v : Fin 64 → CInt) {n : Nat} {e : Fin 64}
    (he : n ≤ e.val) :
    elementAddr f indexed c (c.storeElements i v n) e = elementAddr f indexed c c e := by
  cases indexed with
  | true =>
    change gatherAddr f (c.storeElements i v n) e = gatherAddr f c e
    rw [gatherAddr, gatherAddr, Cpu.storeElements_behind _ _ _ _ _ he]
    rfl
  | false => rfl

/-- The addresses do not depend on the vectors but for the offsets. -/
theorem elementAddr_withV (hk : g.k = f.k) (c : Cpu) (V : Fin 8 → Fin 64 → CInt) {e : Fin 64}
    (hV : indexed = true → V f.k e = c.V f.k e) :
    elementAddr g indexed (c.withV V) (c.withV V) e = elementAddr f indexed c c e := by
  cases indexed with
  | true =>
    change gatherAddr g (c.withV V) e = gatherAddr f c e
    rw [gatherAddr, gatherAddr, hk]
    change c.refA 0 + (V f.k e).setWidth 32 = _
    rw [hV rfl]
  | false =>
    change strideAddr (c.signExtend (c.refAk g.k)) (c.withV V) e.val = _
    rw [hk]
    rfl

theorem saved_elements (hvl : (s.mCpus me).VL.toNat ≤ 64)
    (hfits : VectorFits pm (s.mCpus me) (elementAddr f indexed (s.mCpus me) (s.mCpus me))) :
    Saved (s.mCpus me) (fun n => elementAddr f indexed (s.mCpus me) (s.mCpus me) (Fin.ofNat 64 n))
      (fun n => (s.mCpus me).V f.j (Fin.ofNat 64 n)) (s.mCpus me).VL.toNat s { s with
        mMemory := ByteStore.scatter 8 (fun n => wordPlace pm (s.mCpus me)
            (elementAddr f indexed (s.mCpus me) (s.mCpus me) (Fin.ofNat 64 n)))
          (fun n => (s.mCpus me).V f.j (Fin.ofNat 64 n)) (s.mCpus me).VL.toNat s.mMemory } := by
  refine saved_scatter fun a ha b hb hplace => ?_
  have hval : ∀ n, n < (s.mCpus me).VL.toNat → (Fin.ofNat 64 n).val = n :=
    fun n hn => Nat.mod_eq_of_lt (by omega)
  by_cases hab : Fin.ofNat 64 a = Fin.ofNat 64 b
  · rw [hab]
  · refine absurd hplace (hfits.apart _ _ ?_ ?_ hab)
    · rwa [hval a ha]
    · rwa [hval b hb]

theorem restore_V {s' : System pm} (hgh : g.gh = 0o176) (hj : g.j.val = indexed.toNat)
    (hi : g.i = f.j) (hk : g.k = f.k) (hvl : (s.mCpus me).VL.toNat ≤ 64)
    (hreach : ∀ e : Fin 64, e.val < (s.mCpus me).VL.toNat →
      InReach pm (s.mCpus me) (elementAddr f indexed (s.mCpus me) (s.mCpus me) e))
    (hsaved : Saved (s.mCpus me)
      (fun n => elementAddr f indexed (s.mCpus me) (s.mCpus me) (Fin.ofNat 64 n))
      (fun n => (s.mCpus me).V f.j (Fin.ofNat 64 n)) (s.mCpus me).VL.toNat s s')
    (V : Fin 8 → Fin 64 → CInt) (hV : indexed = true → ∀ e : Fin 64,
      e.val < (s.mCpus me).VL.toNat → V f.k e = (s.mCpus me).V f.k e) :
    ∃ s'', (decode0176 true g).run (handler me) (s'.modifyCpu me fun c => c.withV V) =
        (.ok ⟨1, false⟩, s'') ∧
      ∀ r (e : Fin 64), (s''.mCpus me).V r e =
        if r = f.j ∧ e.val < (s.mCpus me).VL.toNat then (s.mCpus me).V f.j e else V r e := by
  have hmc : (s'.modifyCpu me fun c => c.withV V).mCpus me = (s.mCpus me).withV V := by
    rw [System.modifyCpu_self, hsaved.rest]
  have hsame : SameAddressing (s.mCpus me) ((s.mCpus me).withV V) := ⟨rfl, rfl, rfl, rfl⟩
  have haddr : ∀ e : Fin 64, e.val < (s.mCpus me).VL.toNat →
      elementAddr g indexed ((s.mCpus me).withV V) ((s.mCpus me).withV V) e =
        elementAddr f indexed (s.mCpus me) (s.mCpus me) e :=
    fun e he => elementAddr_withV hk _ V fun hindexed => hV hindexed e he
  have hload := @vectorLoad_run pm me (s'.modifyCpu me fun c => c.withV V) g
    (elementAddr g indexed) (by rw [hmc]; exact hvl)
    (fun v n e he => elementAddr_behind _ _ _ he)
    (fun e he => by
      rw [hmc] at he ⊢
      rw [hsame.inReach_iff, haddr e he]
      exact hreach e he)
  rw [decode0176_eq hgh hj, hload]
  refine ⟨_, rfl, fun r e => ?_⟩
  rw [System.modifyCpu_self, System.storeElements_mCpus, hmc, hi]
  change (((s.mCpus me).withV V).storeElements f.j _ (s.mCpus me).VL.toNat).V r e = _
  by_cases hr : r = f.j
  · rw [hr, Cpu.storeElements_V]
    by_cases he : e.val < (s.mCpus me).VL.toNat
    · have hword := hsaved.words e.val he
      have heval : Fin.ofNat 64 e.val = e := Fin.ext (Nat.mod_eq_of_lt e.isLt)
      rw [if_pos he, if_pos ⟨rfl, he⟩, elementWord, hmc, hsame.dataWord_eq, haddr e he]
      simp only [heval] at hword
      exact hword
    · rw [if_neg he, if_neg fun h => he h.2]
      rfl
  · rw [Cpu.storeElements_V_ne _ _ _ _ hr, if_neg fun h => hr h.1]
    rfl

end vectors

/-! ## 5. The instructions -/

section results
variable {pm : Params} (me : Fin pm.cpuCnt) (s : System pm) (aStore aLoad : CInt)

/-- The store saves the registers `B` named; the load gives them their visible values back,
    whatever they hold by then, and changes nothing else. -/
def RestoresB : Prop :=
  ∃ s', (decode pm true aStore).run (handler me) s = (.ok ⟨1, false⟩, s') ∧
    Saved (s.mCpus me) (blockAddr (s.mCpus me))
      (fun idx => ((s.mCpus me).refB (blockReg (extractFields aStore) idx)).setWidth 64)
      (transferSize (s.mCpus me) (extractFields aStore)) s s' ∧
    ∀ B : Fin 64 → CAddr, ∃ s'',
      (decode pm true aLoad).run (handler me) (s'.modifyCpu me fun c => c.withB B) =
        (.ok ⟨1, false⟩, s'') ∧
      (s'' = s'.modifyCpu me fun c => c.withB (s''.mCpus me).B) ∧
      ∀ r, if Named (extractFields aStore) (transferSize (s.mCpus me) (extractFields aStore)) r then
          (s''.mCpus me).refB r = (s.mCpus me).refB r
        else (s''.mCpus me).B r = B r

/-- The same for the registers `T`. -/
def RestoresT : Prop :=
  ∃ s', (decode pm true aStore).run (handler me) s = (.ok ⟨1, false⟩, s') ∧
    Saved (s.mCpus me) (blockAddr (s.mCpus me))
      (fun idx => (s.mCpus me).refT (blockReg (extractFields aStore) idx))
      (transferSize (s.mCpus me) (extractFields aStore)) s s' ∧
    ∀ T : Fin 64 → CInt, ∃ s'',
      (decode pm true aLoad).run (handler me) (s'.modifyCpu me fun c => c.withT T) =
        (.ok ⟨1, false⟩, s'') ∧
      (s'' = s'.modifyCpu me fun c => c.withT (s''.mCpus me).T) ∧
      ∀ r, if Named (extractFields aStore) (transferSize (s.mCpus me) (extractFields aStore)) r then
          (s''.mCpus me).refT r = (s.mCpus me).refT r
        else (s''.mCpus me).T r = T r

/-- The store saves the elements; the load gives them back, whatever the vectors hold by then, as
    long as the offsets are the same. -/
def RestoresV (indexed : Bool) : Prop :=
  ∃ s', (decode pm true aStore).run (handler me) s = (.ok ⟨1, false⟩, s') ∧
    Saved (s.mCpus me) (fun n => elementAddr (extractFields aStore) indexed (s.mCpus me)
        (s.mCpus me) (Fin.ofNat 64 n))
      (fun n => (s.mCpus me).V (extractFields aStore).j (Fin.ofNat 64 n))
      (s.mCpus me).VL.toNat s s' ∧
    ∀ V : Fin 8 → Fin 64 → CInt,
      (indexed = true → ∀ e : Fin 64, e.val < (s.mCpus me).VL.toNat →
        V (extractFields aStore).k e = (s.mCpus me).V (extractFields aStore).k e) →
      ∃ s'', (decode pm true aLoad).run (handler me) (s'.modifyCpu me fun c => c.withV V) =
          (.ok ⟨1, false⟩, s'') ∧
        ∀ r (e : Fin 64), (s''.mCpus me).V r e =
          if r = (extractFields aStore).j ∧ e.val < (s.mCpus me).VL.toNat then
            (s.mCpus me).V (extractFields aStore).j e
          else V r e

end results

/-- A machine with `n` words of memory. -/
def memoryOf (n : Nat) (h : 0 < n) : Params :=
  { Params.standard .YMP 1 Params.one_lt with memSizeInWords := n, memSize_pos := h }

/-- `T0` and `T1` differ, and 2 is in `A1`. -/
def blockOperands (n : Nat) (h : 0 < n) : System (memoryOf n h) :=
  (System.powerOn (memoryOf n h)).modifyCpu (0 : Fin 1) fun c =>
    { c with
      A := fun r => if r = 1 then 2 else 0
      T := fun r => BitVec.ofNat 64 (r.val + 1)
      DataLimitAddr := BitVec.ofNat 32 n }

end CraySim
