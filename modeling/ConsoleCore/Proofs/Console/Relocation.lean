import ConsoleCore.Proofs.Console.Untouched
import ConsoleCore.Proofs.Memory.Copy

/-!
# The boot code is moved

A reset copies the start of the cartridge to the place where the boot code runs. The fingerprint is
taken from the cartridge itself, which the copy does not reach, so another reset finds and leaves
what the first one did.
-/

namespace ConsoleCore

variable {σ ι : Type}

/-! ## The copy of the boot code -/

namespace Memory

variable {m : Memory σ} {memory : σ → SparseMemory} {s t u : σ}

/-- Where the boot code runs, `t` has the first bytes of the cartridge of `s`, and all other bytes
are those of `s`. -/
structure Relocated (m : Memory σ) (s t : σ) : Prop where
  code : ∀ i < 0xfff, ∀ a b, physical a = 0x04000000 + i → physical b = 0x10000000 + i →
    m.readByte t a = m.readByte s b
  rest : ∀ a, (∀ i < 0xfff, physical a ≠ 0x04000000 + i) → m.readByte t a = m.readByte s a

theorem Relocated.cartridge (h : m.Relocated s t) {a : UInt32} (ha : 0x10000000 ≤ physical a) :
    m.readByte t a = m.readByte s a := by
  apply h.rest
  intro i hi
  omega

theorem Copied.relocated (h : m.BackedBy memory)
    (ht : m.Copied memory s BootState.source BootState.target BootState.length.toNat t)
    (hs : (memory s).mask = 0x1fffffff) : m.Relocated s t := by
  have hlength : BootState.length.toNat = 0xfff := rfl
  have hsource : physical BootState.source = 0x10000000 := rfl
  have htarget : physical BootState.target = 0x04000000 := rfl
  have hahead : physical (BootState.target - BootState.source) = 0x14000000 := rfl
  constructor
  · intro i hi a b ha hb
    have hrun : physical a = physical (BootState.target + UInt32.ofNat i) := by
      rw [physical_add]
      omega
    have hread : physical (BootState.source + UInt32.ofNat i) = physical b := by
      rw [physical_add]
      omega
    -- The target is so far ahead of the source that the copy never meets itself.
    have hinside := ht.inside i hi
    rw [hahead, Nat.mod_eq_of_lt (by omega)] at hinside
    rw [h.readByte_congr ht.mask hrun, hinside, h.readByte_congr hs hread]
  · intro a ha
    apply ht.outside
    intro i hi
    have hne := ha i hi
    rw [physical_add]
    omega

theorem Relocated.again (h : m.Relocated s t) (h' : m.Relocated t u) (a : UInt32) :
    m.readByte u a = m.readByte t a := by
  -- Where the boot code runs, the second copy brings the same byte of the cartridge once more.
  by_cases ha : ∃ i < 0xfff, physical a = 0x04000000 + i
  · obtain ⟨i, hi, ha⟩ := ha
    have hb : physical (0x10000000 + UInt32.ofNat i) = 0x10000000 + i := by
      have hstart : physical 0x10000000 = 0x10000000 := rfl
      rw [physical_add]
      omega
    have hcartridge : m.readByte t (0x10000000 + UInt32.ofNat i) =
        m.readByte s (0x10000000 + UInt32.ofNat i) := h.cartridge (by omega)
    rw [h'.code i hi a _ ha hb, hcartridge, h.code i hi a _ ha hb]
  · apply h'.rest
    intro i hi heq
    exact ha ⟨i, hi, heq⟩

end Memory

/-! ## Resets -/

structure Hardware.MemoryIn (hw : Hardware σ ι) (memory : σ → SparseMemory) : Prop where
  backedBy : hw.toMemory.BackedBy memory
  copyRegion : hw.copyRegion = hw.toMemory.copy
  powerOnCop0 : hw.powerOnCop0.Spares memory
  powerOnCop1 : hw.powerOnCop1.Spares memory

namespace Console

variable {hw : Hardware σ ι} {memory : σ → SparseMemory} {c d : Console σ ι}

theorem relocated_of_reset (hmemory : hw.MemoryIn memory) (hended : c.Ended)
    (hmask : (memory c.rig.hardware).mask = 0x1fffffff) {tv : TvStandard} {seed : UInt32}
    (hreset : reset hw tv c = .ok seed d) :
    hw.toMemory.Relocated c.rig.hardware d.rig.hardware ∧
      (memory d.rig.hardware).mask = 0x1fffffff := by
  have hmem := view_of_reset hmemory.powerOnCop0 hmemory.powerOnCop1 hreset
  rw [hended.joined, hmemory.copyRegion] at hmem
  have hcopied : hw.toMemory.Copied memory c.rig.hardware BootState.source BootState.target
      BootState.length.toNat d.rig.hardware :=
    (hmemory.backedBy.copied hmask _ _ (by decide)).of_memory hmemory.backedBy hmem
  exact ⟨hcopied.relocated hmemory.backedBy hmask, hcopied.mask⟩

theorem print_of_relocated (h : hw.toMemory.Relocated c.rig.hardware d.rig.hardware) :
    d.print hw = c.print hw := by
  apply print_congr
  intro a hfrom hto
  apply h.cartridge
  rw [UInt32.le_iff_toNat_le] at hfrom
  rw [UInt32.lt_iff_toNat_lt] at hto
  have hlower : (0x10000040 : UInt32).toNat = 0x10000040 := rfl
  have hupper : (0x10001000 : UInt32).toNat = 0x10001000 := rfl
  unfold physical
  omega

/-- A reset moves the first 4095 bytes of the cartridge and leaves all other bytes as they were.
Another one changes nothing more. -/
theorem reset_relocates_boot_code (hmemory : hw.MemoryIn memory) {ws₀ ws₁ : List RegisterWrite}
    (hcop0 : hw.powerOnCop0.Writes ws₀) (hcop1 : hw.powerOnCop1.Writes ws₁) (tv : TvStandard)
    (c : Console σ ι) (hended : c.Ended) (hmask : (memory c.rig.hardware).mask = 0x1fffffff) :
    let read (d : Console σ ι) := hw.readByte d.rig.hardware
    ∃ seed c₁ c₂, reset hw tv c = .ok seed c₁ ∧ reset hw tv c₁ = .ok seed c₂ ∧
      (∀ i < 0xfff, ∀ a b, physical a = 0x04000000 + i → physical b = 0x10000000 + i →
        read c₁ a = read c b) ∧
      (∀ a, (∀ i < 0xfff, physical a ≠ 0x04000000 + i) → read c₁ a = read c a) ∧
      (∃ print d d₁, identify hw c = .ok print d ∧ identify hw c₁ = .ok print d₁ ∧
        print.seed = seed) ∧
      c₂.machine.registers.snapshot = c₁.machine.registers.snapshot ∧
      ∀ a, read c₂ a = read c₁ a := by
  intro read
  obtain ⟨c₁, hreset, hregisters⟩ := reset_writes tv c hcop0 hcop1
  obtain ⟨c₂, hreset₂, hregisters₂⟩ := reset_writes tv c₁ hcop0 hcop1
  have hended₁ : c₁.Ended := (idle_of_reset hreset).ended
  obtain ⟨hmoved, hmask₁⟩ := relocated_of_reset hmemory hended hmask hreset
  obtain ⟨hmoved₂, -⟩ := relocated_of_reset hmemory hended₁ hmask₁ hreset₂
  have hprint : (c.joined hw).print hw = c.print hw := by
    rw [hended.joined]
    rfl
  have hprint₁ : (c₁.joined hw).print hw = c.print hw := by
    rw [hended₁.joined]
    exact print_of_relocated hmoved
  rw [hprint] at hreset hregisters
  rw [hprint₁, settings_of_reset hreset, ← hregisters] at hregisters₂
  rw [hprint₁] at hreset₂
  refine ⟨_, c₁, c₂, hreset, hreset₂, hmoved.code, hmoved.rest, ?_, ?_, hmoved.again hmoved₂⟩
  · exact ⟨c.print hw, _, _, rfl, congrArg (EStateM.Result.ok · _) (print_of_relocated hmoved), rfl⟩
  · rw [hregisters₂]

theorem writingBoard_memoryIn : writingBoard.MemoryIn TestBoard.memory where
  backedBy := TestBoard.backedBy
  copyRegion := rfl
  powerOnCop0 _ := rfl
  powerOnCop1 _ := rfl

def endedConsole : Console TestBoard TestBoard.Instruction where
  rig := {
    hardware := TestBoard.load {} 0x10000ffd [7, 8, 9]
    machine := { registers := .writeAll {} [.gpr 19 8], powered := true } }
  processorTask := some (.failed .accumulatorOverflow)
  scanlineTask := some .stopped

theorem boot_code_of_endedConsole :
    let read (d : Console TestBoard TestBoard.Instruction) := writingBoard.readByte d.rig.hardware
    ∃ seed c₁ c₂, reset writingBoard .ntsc endedConsole = .ok seed c₁ ∧
      reset writingBoard .ntsc c₁ = .ok seed c₂ ∧
      read c₁ 0xa4000ffd = 7 ∧ read c₁ 0x84000ffe = 8 ∧ read c₁ 0x04000fff = 0 ∧
      read c₁ 0xb0000ffe = 8 ∧ read c₂ 0x04000fff = 0 := by
  have hcop0 : writingBoard.powerOnCop0.Writes [.gpr 32 7, .cop0 Cop0.wired 9, .gpr 19 2] :=
    fun b => ⟨b.hardware, b.powered, rfl⟩
  have hcop1 : writingBoard.powerOnCop1.Writes [.gpr 51 3, .cop0 33 5] :=
    fun b => ⟨b.hardware, b.powered, rfl⟩
  intro read
  obtain ⟨seed, c₁, c₂, hc₁, hc₂, hcode, hrest, -, -, hsame⟩ :=
    reset_relocates_boot_code writingBoard_memoryIn hcop0 hcop1 .ntsc endedConsole ⟨rfl, rfl⟩ rfl
  have hmemory (a : UInt32) : read endedConsole a =
      (((SparseMemory.write {} 0x10000ffd 7).write 0x10000ffe 8).write 0x10000fff 9).read a := rfl
  simp only [SparseMemory.read_write, SparseMemory.mask_write, SparseMemory.read_empty] at hmemory
  have hend : read c₁ 0x04000fff = 0 := by
    refine (hrest 0x04000fff fun i hi => ?_).trans (hmemory 0x04000fff)
    have hphysical : physical 0x04000fff = 0x04000fff := rfl
    omega
  have hcartridge : read c₁ 0xb0000ffe = 8 := by
    refine (hrest 0xb0000ffe fun i hi => ?_).trans (hmemory 0xb0000ffe)
    have hphysical : physical 0xb0000ffe = 0x10000ffe := rfl
    omega
  refine ⟨seed, c₁, c₂, hc₁, hc₂, ?_, ?_, hend, hcartridge, (hsame 0x04000fff).trans hend⟩
  · exact (hcode 0xffd (by decide) 0xa4000ffd 0x10000ffd rfl rfl).trans (hmemory 0x10000ffd)
  · exact (hcode 0xffe (by decide) 0x84000ffe 0x10000ffe rfl rfl).trans (hmemory 0x10000ffe)

end Console

end ConsoleCore
