/-
  Subject:   What the packet of a running process holds.

  `CreateExchangePacket` is one long sequence of setters, and the packet goes through memory
  before it is restored. Both are followed here for all accessors at once:

  * `get_read_write` -- a packet read back from memory, seen through its accessors,
  * `setAll`, `get_setAll` -- a sequence of setters, and the getter of the last one to a field,
  * `Cpu.contextEntries`, `Cpu.registerEntries` -- the setters of `CreateExchangePacket` with their
    values,
  * `createdPacket_eq` -- the packet is that sequence, from an empty one on.
-/
import CraySim.Exchange
import CraySim.Lib.EventRun
import CraySim.PacketFrame

namespace CraySim

open EventRun (exists_of_bind)

/-! ## 1. A packet in memory -/

namespace ExchangePacket

variable {p : ExchangePacket} {mem : Nat → BitVec 8} {aMem : Nat}

/-- The words of `l` stored one after the other; a word that is not among them stays. -/
theorem load_stores_of_notMem {l : List (Fin 16)} {i : Fin 16} (h : i ∉ l) :
    ByteStore.load 8 (l.foldl (fun mem i => ByteStore.store 8 mem (aMem + 8 * i.val) (p.Data i)) mem)
      (aMem + 8 * i.val) = ByteStore.load 8 mem (aMem + 8 * i.val) := by
  induction l generalizing mem with
  | nil => rfl
  | cons j l ih =>
    have hij : i.val ≠ j.val := fun he => h (Fin.ext he ▸ List.mem_cons_self)
    rw [List.foldl_cons, ih fun hi => h (List.mem_cons_of_mem j hi)]
    exact ByteStore.load_store_of_disjoint _ (by omega)

theorem load_stores {l : List (Fin 16)} (hl : l.Nodup) {i : Fin 16} (h : i ∈ l) :
    ByteStore.load 8 (l.foldl (fun mem i => ByteStore.store 8 mem (aMem + 8 * i.val) (p.Data i)) mem)
      (aMem + 8 * i.val) = p.Data i := by
  induction l generalizing mem with
  | nil => cases h
  | cons j l ih =>
    obtain ⟨hj, hl⟩ := List.nodup_cons.mp hl
    rw [List.foldl_cons]
    rcases List.mem_cons.mp h with rfl | hi
    · rw [load_stores_of_notMem hj]
      exact ByteStore.load_store 8 mem _ _
    · exact ih hl hi

theorem load_write (i : Fin 16) :
    ByteStore.load 8 (p.write mem aMem) (aMem + 8 * i.val) = p.Data i :=
  load_stores (List.nodup_finRange 16) (List.mem_finRange i)

/-- **A packet read back from memory**: reading stamps the processor type, no other field. -/
theorem get_read_write {acc : Accessor} (h : acc.inLayout p.mMachineType = true)
    (hne : acc ≠ .plain .ympProcessorType) :
    acc.get (read p.mMachineType (p.write mem aMem) aMem) = acc.get p := by
  have hraw : (⟨fun i => ByteStore.load 8 (p.write mem aMem) (aMem + 8 * i.val),
      p.mMachineType⟩ : ExchangePacket) = p :=
    congrArg (ExchangePacket.mk · p.mMachineType) (funext load_write)
  have hstamp : ∀ v, p.mMachineType.isXmp = false →
      acc.get (ympProcessorType.set v p) = acc.get p := by
    intro v hx
    have hset : (Accessor.plain .ympProcessorType).set v p = .ok (ympProcessorType.set v p) := rfl
    refine Accessor.get_of_set_ne hset (congrArg not hx) h hne ?_
    cases acc <;> simp [Accessor.shares, hx]
  unfold read
  simp only [hraw]
  split
  · rename_i hj
    exact hstamp 0 (by rw [hj]; rfl)
  · split
    · rename_i hs
      exact hstamp 2 (by rw [hs]; rfl)
    · rfl

end ExchangePacket

/-! ## 2. A sequence of setters -/

namespace Accessor

/-- A setter with its value. -/
abbrev Entry := Σ acc : Accessor, acc.Value

/-- The setters of `l` in order. -/
def setAll (l : List Entry) (p : ExchangePacket) : Except Exn ExchangePacket :=
  l.foldlM (fun p e => e.1.set e.2 p) p

/-- No setter of `l` reaches the getter of `acc`. -/
def beside (mt : MachineTypes) (acc : Accessor) (l : List Accessor) : Bool :=
  l.all fun acc' => acc'.inLayout mt && acc != acc' && !acc'.shares mt acc

variable {p q : ExchangePacket} {l l₁ l₂ : List Entry} {acc : Accessor}

theorem setAll_append (l₁ l₂ : List Entry) (p : ExchangePacket) :
    setAll (l₁ ++ l₂) p = setAll l₁ p >>= setAll l₂ :=
  List.foldlM_append

theorem setAll_cons (e : Entry) (l : List Entry) (p : ExchangePacket) :
    setAll (e :: l) p = e.1.set e.2 p >>= setAll l :=
  List.foldlM_cons

theorem setAll_nil : setAll [] = Except.ok := rfl

/-- A sequence as a function of the packet, to write one out. -/
theorem setAll_eq_bind (e : Entry) (l : List Entry) :
    setAll (e :: l) = fun p => e.1.set e.2 p >>= setAll l :=
  funext fun p => setAll_cons e l p

theorem ok_bind {α β : Type} (x : α) (f : α → Except Exn β) : (Except.ok x >>= f) = f x := rfl

theorem setAll_machineType (h : setAll l p = .ok q) : q.mMachineType = p.mMachineType := by
  induction l generalizing p with
  | nil =>
    cases h
    rfl
  | cons e l ih =>
    rw [setAll_cons] at h
    obtain ⟨p', hp', h⟩ := exists_of_bind h
    exact (ih h).trans (set_writes hp').1

/-- On a machine with a layout for all of its fields a packet takes any sequence. -/
theorem setAll_returns (h : p.mMachineType ≠ .C90 ∧ p.mMachineType ≠ .T90) (l : List Entry) :
    ∃ q, setAll l p = .ok q := by
  induction l generalizing p with
  | nil => exact ⟨p, rfl⟩
  | cons e l ih =>
    obtain ⟨p', hp'⟩ := set_returns p e.1 e.2 (.inr h)
    have hmt := (set_writes hp').1
    obtain ⟨q, hq⟩ := @ih p' (by rw [hmt]; exact h)
    refine ⟨q, ?_⟩
    rw [setAll_cons, hp']
    exact hq

/-- Every setter of a sequence that returns has returned. -/
theorem set_of_setAll {v : acc.Value} (h : setAll (l₁ ++ ⟨acc, v⟩ :: l₂) p = .ok q) :
    ∃ p' q', p'.mMachineType = p.mMachineType ∧ acc.set v p' = .ok q' := by
  rw [setAll_append] at h
  obtain ⟨p', hp', h⟩ := exists_of_bind h
  rw [setAll_cons] at h
  obtain ⟨q', hq', -⟩ := exists_of_bind h
  exact ⟨p', q', setAll_machineType hp', hq'⟩

/-- **Frame rule of a sequence.** -/
theorem get_setAll_of_beside (h : setAll l p = .ok q) (hacc : acc.inLayout p.mMachineType = true)
    (hl : beside p.mMachineType acc (l.map Sigma.fst) = true) : acc.get q = acc.get p := by
  induction l generalizing p with
  | nil =>
    cases h
    rfl
  | cons e l ih =>
    rw [setAll_cons] at h
    obtain ⟨p', hp', h⟩ := exists_of_bind h
    have hmt := (set_writes hp').1
    rw [← hmt] at hacc
    simp only [beside, List.map_cons, List.all_cons, Bool.and_eq_true, bne_iff_ne,
      Bool.not_eq_true'] at hl
    obtain ⟨⟨⟨hlay, hne⟩, hs⟩, hl⟩ := hl
    rw [ih h hacc (by rw [hmt]; exact hl)]
    exact get_of_set_ne hp' hlay (hmt ▸ hacc) hne hs

/-- **The getter of the last setter** to its field. -/
theorem get_setAll {v : acc.Value} (h : setAll (l₁ ++ ⟨acc, v⟩ :: l₂) p = .ok q)
    (hA : p.mMachineType.isXmp = true → ∀ i, acc ≠ a i)
    (hacc : acc.inLayout p.mMachineType = true)
    (hl : beside p.mMachineType acc (l₂.map Sigma.fst) = true) :
    acc.get q = .ok (acc.fit p.mMachineType v) := by
  rw [setAll_append] at h
  obtain ⟨p₁, hp₁, h⟩ := exists_of_bind h
  rw [setAll_cons] at h
  obtain ⟨p₂, hp₂, h⟩ := exists_of_bind h
  have hm₁ := setAll_machineType hp₁
  have hm₂ := (set_writes hp₂).1.trans hm₁
  rw [← hm₂] at hl
  rw [← hm₁] at hA ⊢
  rw [get_setAll_of_beside h (by rw [hm₂]; exact hacc) hl]
  exact get_of_set hp₂ hA

end Accessor

/-! ## 3. The packet of a process -/

section created

open Accessor

/-- The setters of `CreateExchangePacket` before the registers `A` and `S`. -/
def Cpu.contextEntries (pm : Params) (c : Cpu) : List Entry :=
  [⟨plain .processorNumber, BitVec.ofNat 8 c.mCpuId⟩, ⟨plain .syndrome, 0#8⟩,
    ⟨plain .programAddress, c.ProgramAddress⟩]
  ++ (if pm.isXmp then [⟨plain .xmpReadAddress, 0#32⟩] else [])
  ++ [⟨plain .instBaseAddr, c.InstBaseAddr⟩, ⟨plain .instLimitAddr, c.InstLimitAddr⟩,
    ⟨plain .vectorNotUsed, if c.VectorNotUsed then 1#8 else 0#8⟩,
    ⟨plain .exchangeAddress, c.ExchangePacketAddress⟩, ⟨plain .vectorLength, c.VL⟩]
  ++ (if pm.isXmp then
      [⟨plain .xmpEnhancedAddressingMode, if c.XmpEnhancedAddressingMode then 1#8 else 0#8⟩]
    else [])
  ++ [⟨plain .dataBaseAddr, c.DataBaseAddr⟩]
  ++ (if pm.isXmp then [⟨plain .xmpProgramState, if c.XmpProgramState then 1#8 else 0#8⟩] else [])
  ++ [⟨plain .clusterNumber, c.Cluster⟩, ⟨plain .dataLimitAddr, c.DataLimitAddr⟩,
    ⟨mode, c.Mode⟩,
    ⟨enableSecondVectorLogical, if c.EnableSecondVectorLogical then 1#8 else 0#8⟩,
    ⟨flag, c.firingInterrupts⟩]

/-- The setters of the loop over the registers. -/
def Cpu.registerEntries (c : Cpu) : List Entry :=
  (List.finRange 8).flatMap fun i => [⟨a i, c.A i⟩, ⟨s i, c.S i⟩]

section setters
variable (p : ExchangePacket)

theorem set_xmpReadAddress (v : BitVec 32) :
    (plain .xmpReadAddress).set v p = .ok (xmpReadAddress.set v p) := rfl

theorem set_xmpEnhancedAddressingMode (v : (plain .xmpEnhancedAddressingMode).Value) :
    (plain .xmpEnhancedAddressingMode).set v p = .ok (xmpEnhancedAddressingMode.set v p) := rfl

theorem set_xmpProgramState (v : (plain .xmpProgramState).Value) :
    (plain .xmpProgramState).set v p = .ok (xmpProgramState.set v p) := rfl

theorem set_mode (m : Mode) : mode.set m p = .ok (p.setMode m) := rfl

theorem set_flag (v : Flags) : flag.set v p = .ok (p.setFlag v) := rfl

end setters

theorem ofState_eq (pm : Params) (c : Cpu) :
    ExchangePacket.ofState pm c =
      setAll (c.contextEntries pm) (ExchangePacket.new pm.machineType) := by
  unfold Cpu.contextEntries ExchangePacket.ofState
  cases pm.isXmp with
  | true =>
    simp only [if_true, List.cons_append, List.nil_append, setAll_eq_bind, setAll_nil,
      set_xmpReadAddress, set_xmpEnhancedAddressingMode, set_xmpProgramState, set_mode, set_flag,
      ok_bind]
    rfl
  | false =>
    simp only [Bool.false_eq_true, if_false, List.cons_append, List.nil_append, List.append_nil,
      setAll_eq_bind, setAll_nil, set_mode, set_flag, ok_bind]
    rfl

theorem setRegisters_eq (c : Cpu) (p : ExchangePacket) :
    setAll c.registerEntries p = .ok (p.setRegisters c.A c.S) := by
  unfold Cpu.registerEntries ExchangePacket.setRegisters
  generalize List.finRange 8 = l
  induction l generalizing p with
  | nil => rfl
  | cons i l ih =>
    rw [List.flatMap_cons, setAll_append, List.foldl_cons, ← ih]
    rfl

variable {pm : Params}

/-- **The packet of a process is a sequence of setters.** -/
theorem createdPacket_eq {c : Cpu} {p : ExchangePacket} (h : ExchangePacket.ofState pm c = .ok p) :
    setAll (c.contextEntries pm ++ c.registerEntries) (ExchangePacket.new pm.machineType) =
      .ok (p.setRegisters c.A c.S) := by
  rw [ofState_eq] at h
  rw [setAll_append, h, ok_bind]
  exact setRegisters_eq c p

theorem new_machineType (mt : MachineTypes) : (ExchangePacket.new mt).mMachineType = mt := by
  cases mt <;> rfl

theorem ofState_returns (h : pm.machineType ≠ .C90 ∧ pm.machineType ≠ .T90)
    (c : Cpu) : ∃ p, ExchangePacket.ofState pm c = .ok p := by
  rw [ofState_eq]
  exact setAll_returns (by rw [new_machineType]; exact h) _

/-- The C90 and the T90 have no layout for the base and limit addresses. -/
theorem ofState_fails (h : pm.machineType = .C90 ∨ pm.machineType = .T90) (c : Cpu) :
    ∃ e, ExchangePacket.ofState pm c = .error e := by
  have hx : pm.isXmp = false := by
    unfold Params.isXmp
    rcases h with h | h <;> rw [h] <;> rfl
  have hbase : c.contextEntries pm = (c.contextEntries pm).take 3 ++
      ⟨plain .instBaseAddr, c.InstBaseAddr⟩ :: (c.contextEntries pm).drop 4 := by
    unfold Cpu.contextEntries
    rw [hx]
    rfl
  cases hp : ExchangePacket.ofState pm c with
  | error e => exact ⟨e, rfl⟩
  | ok p =>
    rw [ofState_eq, hbase] at hp
    obtain ⟨p', q', hmt, hset⟩ := set_of_setAll hp
    obtain ⟨fld, hfld, -⟩ := set_eq_ok hset
    rw [hmt, new_machineType] at hfld
    rcases h with h | h
    · rw [h] at hfld
      cases hfld
    · rw [h] at hfld
      cases hfld

/-- **A field of the packet of a process** is what its last setter was given. -/
theorem created_get {c : Cpu} {p : ExchangePacket} {l₁ l₂ : List Entry}
    {acc : Accessor} {v : acc.Value} (h : ExchangePacket.ofState pm c = .ok p)
    (hl : c.contextEntries pm ++ c.registerEntries = l₁ ++ ⟨acc, v⟩ :: l₂)
    (hA : pm.machineType.isXmp = true → ∀ i, acc ≠ a i)
    (hacc : acc.inLayout pm.machineType = true)
    (hbeside : beside pm.machineType acc (l₂.map Sigma.fst) = true) :
    acc.get (p.setRegisters c.A c.S) = .ok (acc.fit pm.machineType v) := by
  have hset := createdPacket_eq h
  rw [hl] at hset
  have hget := get_setAll hset
  rw [new_machineType] at hget
  exact hget hA hacc hbeside

theorem created_machineType {c : Cpu} {p : ExchangePacket}
    (h : ExchangePacket.ofState pm c = .ok p) :
    (p.setRegisters c.A c.S).mMachineType = pm.machineType :=
  (setAll_machineType (createdPacket_eq h)).trans (new_machineType _)

end created

end CraySim
