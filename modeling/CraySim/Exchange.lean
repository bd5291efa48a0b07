/-
  Subject:   What an exchange does to the mainframe.

  An exchange creates the packet of the running process, swaps it with the one in memory and
  restores the registers from that. Invariants do not unfold its sequence of updates: they go
  through the cases and the rule of this module.

  * `exchange_cases` -- nothing happens, or the packet is swapped and the next one restored,
  * `RestoreStep` -- what one update of the restore can do to the processor,
  * `restore_keeps` -- what the updates and the change of cluster keep, the restore keeps.
-/
import CraySim.Effects

namespace CraySim

/-- The processor once its packet is created: what fires is no longer pending. -/
def Cpu.packetCreated (c : Cpu) : Cpu :=
  { c with Flags := c.Flags.clearBits (c.firingInterrupts &&& Flags.clearedOnExchange) }

/-- The place of the exchange packet in memory. -/
def Cpu.packetAddress (c : Cpu) : Nat := c.ExchangePacketAddress.toNat * 16 * 8

/-- The packet an exchange takes the next process from. -/
def System.nextContext {pm : Params} (s : System pm) (me : Fin pm.cpuCnt) : ExchangePacket :=
  ExchangePacket.read pm.machineType s.mMemory (s.mCpus me).packetAddress

namespace SysRun

variable {pm : Params} {me : Fin pm.cpuCnt} {s : System pm}

/-! ## 1. The swap -/

theorem createExchangePacket_ok {p : ExchangePacket}
    (h : ExchangePacket.ofState pm (s.mCpus me) = .ok p) :
    createExchangePacket me s =
      (.ok (p.setRegisters (s.mCpus me).A (s.mCpus me).S), s.modifyCpu me Cpu.packetCreated) := by
  have hp : (ofExcept (ExchangePacket.ofState pm (s.mCpus me)) : SysRun pm ExchangePacket) s =
      (.ok p, s) := by
    rw [h]
    rfl
  unfold createExchangePacket
  rw [Run.bind_apply_ok cpu_apply, Run.bind_apply_ok hp]
  rfl

theorem createExchangePacket_error {e : Exn}
    (h : ExchangePacket.ofState pm (s.mCpus me) = .error e) :
    createExchangePacket me s = (.error e, s) := by
  have hp : (ofExcept (ExchangePacket.ofState pm (s.mCpus me)) : SysRun pm ExchangePacket) s =
      (.error e, s) := by
    rw [h]
    rfl
  unfold createExchangePacket
  rw [Run.bind_apply_ok cpu_apply]
  exact Run.bind_apply_error hp

/-- The state in which the next process is restored. -/
def swapped (me : Fin pm.cpuCnt) (s : System pm) (p : ExchangePacket) : System pm :=
  { s.modifyCpu me Cpu.packetCreated with
    mMemory := (p.setRegisters (s.mCpus me).A (s.mCpus me).S).write s.mMemory
      (s.mCpus me).packetAddress }

/-- **The cases of an exchange**: the packet of the running process cannot be created, or it is
    swapped with the next one, which is restored. -/
theorem exchange_cases (me : Fin pm.cpuCnt) (s : System pm) :
    (∃ e, ExchangePacket.ofState pm (s.mCpus me) = .error e ∧ exchange me s = (.error e, s)) ∨
      ∃ p, ExchangePacket.ofState pm (s.mCpus me) = .ok p ∧
        exchange me s =
          restoreFromExchangePacket me (s.nextContext me).clearFlags (swapped me s p) := by
  have hstart : exchange me s = (createExchangePacket me >>= fun currentContext => do
      Run.modify fun s => { s with
        mMemory := currentContext.write s.mMemory (s.mCpus me).packetAddress }
      restoreFromExchangePacket me (s.nextContext me).clearFlags) s := by
    rcases hc : createExchangePacket me s with ⟨e | p, s'⟩
    · unfold exchange
      rw [Run.bind_apply_ok cpu_apply, Run.bind_apply_ok (Run.get_apply s),
        Run.bind_apply_error hc, Run.bind_apply_error hc]
    · have hxa : (s'.mCpus me).packetAddress = (s.mCpus me).packetAddress := by
        rcases hp : ExchangePacket.ofState pm (s.mCpus me) with e | q
        · rw [createExchangePacket_error hp] at hc
          cases hc
        · rw [createExchangePacket_ok hp] at hc
          cases hc
          rw [System.modifyCpu_self]
          rfl
      unfold exchange
      rw [Run.bind_apply_ok cpu_apply, Run.bind_apply_ok (Run.get_apply s),
        Run.bind_apply_ok hc, Run.bind_apply_ok hc, Run.bind_apply_ok (Run.modify_apply _ _),
        Run.bind_apply_ok (Run.modify_apply _ _), hxa]
      rfl
  rcases hp : ExchangePacket.ofState pm (s.mCpus me) with e | p
  · refine Or.inl ⟨e, rfl, ?_⟩
    rw [hstart]
    exact Run.bind_apply_error (createExchangePacket_error hp)
  · refine Or.inr ⟨p, rfl, ?_⟩
    have hxa : ((s.modifyCpu me Cpu.packetCreated).mCpus me).packetAddress =
        (s.mCpus me).packetAddress := by
      rw [System.modifyCpu_self]
      rfl
    rw [hstart, Run.bind_apply_ok (createExchangePacket_ok hp),
      Run.bind_apply_ok (Run.modify_apply _ _), hxa]
    rfl

/-! ## 2. The restore -/

/-- **What an update of the restore can do to its processor**: the pending interrupts, the cluster
    and the block on a semaphore stay, `P` and `VL` come from the packet. -/
structure RestoreStep (aEP : ExchangePacket) (c c' : Cpu) : Prop where
  Flags : c'.Flags = c.Flags
  Cluster : c'.Cluster = c.Cluster
  TestAndSetBlocked : c'.TestAndSetBlocked = c.TestAndSetBlocked
  mInReset : c'.mInReset = c.mInReset
  mNotInterProcessorInterrupt : c'.mNotInterProcessorInterrupt = c.mNotInterProcessorInterrupt
  mNotDeadLockInterrupt : c'.mNotDeadLockInterrupt = c.mNotDeadLockInterrupt
  mNotMcuInterrupt : c'.mNotMcuInterrupt = c.mNotMcuInterrupt
  mNotIoInterrupt : c'.mNotIoInterrupt = c.mNotIoInterrupt
  ProgramAddress :
    c'.ProgramAddress = c.ProgramAddress ∨ aEP.get programAddress = .ok c'.ProgramAddress
  VL : c'.VL = c.VL ∨ aEP.get vectorLength = .ok c'.VL

variable {I : System pm → Prop}

theorem ofExcept_keeps {α β : Type} {m : Except Exn α}
    {f : α → SysRun pm β} (h : ∀ a, m = .ok a → (f a).Keeps I) : (ofExcept m >>= f).Keeps I := by
  cases m with
  | error e => exact fun _ hs => hs
  | ok a => exact h a rfl

theorem modifyCpu_keeps {β : Type} {g : Cpu → Cpu} {f : Unit → SysRun pm β}
    (hg : ∀ s, I s → I (s.modifyCpu me g)) (hf : (f ()).Keeps I) :
    (modifyCpu me g >>= f).Keeps I :=
  Run.Keeps.bind (Run.keeps_modify hg) fun _ => hf

/-- **The invariant rule of the restore.** -/
theorem restore_keeps {aEP : ExchangePacket}
    (hcpu : ∀ g, (∀ c, RestoreStep aEP c (g c)) → ∀ s, I s → I (s.modifyCpu me g))
    (hcluster : ∀ v, aEP.get clusterNumber = .ok v → (setCluster me v).Keeps I) :
    (restoreFromExchangePacket me aEP).Keeps I := by
  have hkeep : ∀ {β : Type} {g : Cpu → Cpu} {f : Unit → SysRun pm β},
      (∀ c, RestoreStep aEP c (g c)) → (f ()).Keeps I → (modifyCpu me g >>= f).Keeps I :=
    fun hg hf => modifyCpu_keeps (hcpu _ hg) hf
  unfold restoreFromExchangePacket
  refine ofExcept_keeps fun p hp => ?_
  refine hkeep (fun c => ⟨rfl, rfl, rfl, rfl, rfl, rfl, rfl, rfl, .inr hp, .inl rfl⟩) ?_
  refine ofExcept_keeps fun _ _ => ?_
  refine hkeep (fun c => ⟨rfl, rfl, rfl, rfl, rfl, rfl, rfl, rfl, .inl rfl, .inl rfl⟩) ?_
  refine ofExcept_keeps fun _ _ => ?_
  refine hkeep (fun c => ⟨rfl, rfl, rfl, rfl, rfl, rfl, rfl, rfl, .inl rfl, .inl rfl⟩) ?_
  refine hkeep (fun c => ⟨rfl, rfl, rfl, rfl, rfl, rfl, rfl, rfl, .inl rfl, .inl rfl⟩) ?_
  refine ofExcept_keeps fun _ _ => ?_
  refine hkeep (fun c => ⟨rfl, rfl, rfl, rfl, rfl, rfl, rfl, rfl, .inl rfl, .inl rfl⟩) ?_
  refine ofExcept_keeps fun _ hv => ?_
  refine hkeep (fun c => ⟨rfl, rfl, rfl, rfl, rfl, rfl, rfl, rfl, .inl rfl, .inr hv⟩) ?_
  refine ofExcept_keeps fun _ _ => ?_
  refine hkeep (fun c => ⟨rfl, rfl, rfl, rfl, rfl, rfl, rfl, rfl, .inl rfl, .inl rfl⟩) ?_
  refine ofExcept_keeps fun v hv => ?_
  refine Run.Keeps.bind (hcluster v hv) fun _ => ?_
  refine ofExcept_keeps fun _ _ => ?_
  refine hkeep (fun c => ⟨rfl, rfl, rfl, rfl, rfl, rfl, rfl, rfl, .inl rfl, .inl rfl⟩) ?_
  refine ofExcept_keeps fun _ _ => ?_
  exact Run.keeps_modify (hcpu _ fun c =>
    ⟨rfl, rfl, rfl, rfl, rfl, rfl, rfl, rfl, .inl rfl, .inl rfl⟩)

/-- **The invariant rule of an exchange**: the packet is created, memory changes, and the next
    process is restored from the packet that was in memory. -/
theorem exchange_keeps {s : System pm} (hs : I s)
    (hcreate : ∀ s mem, I s → I { s.modifyCpu me Cpu.packetCreated with mMemory := mem })
    (hcpu : ∀ g, (∀ c, RestoreStep (s.nextContext me).clearFlags c (g c)) →
      ∀ s, I s → I (s.modifyCpu me g))
    (hcluster : ∀ v, (s.nextContext me).clearFlags.get clusterNumber = .ok v →
      (setCluster me v).Keeps I) : I (exchange me s).2 := by
  rcases exchange_cases me s with ⟨e, -, h⟩ | ⟨p, -, h⟩
  · rw [h]
    exact hs
  · rw [h]
    exact restore_keeps hcpu hcluster _ (hcreate s _ hs)

end SysRun

end CraySim
