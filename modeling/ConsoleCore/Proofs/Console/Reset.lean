import ConsoleCore.TestBoard
import ConsoleCore.Proofs.BootState
import ConsoleCore.Proofs.Console.Shutdown

/-!
# Reset

A reset is a shutdown, then the boot state, which depends on the settings and the memory alone, and
then the hooks of both coprocessors.
-/

namespace ConsoleCore

variable {σ ι : Type}

/-- The hook does these writes, whatever the registers held. It may change the hardware and switch
the power. -/
def Hook.Writes (h : Hook σ Unit) (ws : List RegisterWrite) : Prop :=
  ∀ b, ∃ s on, h b = .ok () ⟨s, b.registers.writeAll ws, on⟩

namespace Console

variable (hw : Hardware σ ι) (tv : TvStandard) (c : Console σ ι)

def print : Fingerprint := .ofMemory (hw.readByte c.rig.hardware)

/-- A console after its shutdown, in its boot state, before the coprocessors are called. -/
def booted : Console σ ι :=
  let messages := (c.print hw).remarks
    ++ BootState.fixedRegisters.map (fun (i, v) => .bootRegister i v)
    ++ [.copyingBootCode BootState.length BootState.source BootState.target]
  let hardware :=
    hw.copyRegion c.rig.hardware BootState.source BootState.target BootState.length
  let registers := BootState.registers c.settings tv (c.print hw).seed
  sayAll .caller messages
    { c with rig := { hardware, machine := { c.machine with registers } } }

def callCoprocessors (print : Fingerprint) : Action σ ι UInt32 := do
  call hw.powerOnCop0
  call hw.powerOnCop1
  modify (say .caller (.resetDone tv print.chip? print.seed))
  return print.seed

theorem reset_eq :
    reset hw tv c =
      callCoprocessors hw tv ((c.shutdown hw).print hw) ((c.shutdown hw).booted hw tv) := by
  unfold reset
  rw [bind_of_ok (modify_apply _ _), bind_of_ok (modify_apply _ _)]
  generalize c.shutdown hw = d
  have hidentify : identify hw (d.onRegisters fun _ => Registers.atReset) =
      .ok (d.print hw)
        (sayAll .caller (d.print hw).remarks (d.onRegisters fun _ => Registers.atReset)) := rfl
  rw [bind_of_ok hidentify]
  unfold booted
  generalize d.print hw = print
  rw [bind_of_ok (modify_apply _ _), bind_of_ok (get_apply _), bind_of_ok (modify_apply _ _),
    bind_of_ok (modify_apply _ _), bind_of_ok (modify_apply _ _)]
  refine congrArg (callCoprocessors hw tv print) ?_
  obtain ⟨⟨hardware, machine⟩, settings, processorTask, scanlineTask, journal, now, lastTurns⟩ := d
  simp only [onRegisters, onMachine, onHardware, say, sayAll, BootState.registers,
    List.map_append, List.append_assoc, List.map_cons, List.map_nil]
  rfl

theorem endState_reset_of_done {I : Console σ ι → Prop}
    (hbooted : I ((c.shutdown hw).booted hw tv)) (hcop0 : Keeps I (call hw.powerOnCop0))
    (hcop1 : Keeps I (call hw.powerOnCop1))
    (hdone : ∀ d chip seed, I d → I (d.say .caller (.resetDone tv chip seed))) :
    I (endState (reset hw tv c)) := by
  have hkeeps (print : Fingerprint) : Keeps I (callCoprocessors hw tv print) :=
    hcop0.bind fun _ => hcop1.bind fun _ =>
      (Keeps.modify fun d hd => hdone d _ _ hd).bind fun _ => Keeps.pure _
  rw [reset_eq]
  exact hkeeps _ _ hbooted

theorem endState_reset {I : Console σ ι → Prop} (hbooted : I ((c.shutdown hw).booted hw tv))
    (hcop0 : Keeps I (call hw.powerOnCop0)) (hcop1 : Keeps I (call hw.powerOnCop1))
    (hsay : ∀ d s m, I d → I (d.say s m)) : I (endState (reset hw tv c)) :=
  endState_reset_of_done hw tv c hbooted hcop0 hcop1 fun d _ _ => hsay d _ _

theorem registers_booted :
    (c.booted hw tv).machine.registers =
      BootState.registers c.settings tv (c.print hw).seed := rfl

theorem print_shutdown : (c.shutdown hw).print hw = (c.joined hw).print hw := by
  unfold print
  rw [rig_shutdown]

/-! ## Coprocessors that only write registers -/

variable {hw tv c}

theorem call_writes {h : Hook σ Unit} {ws : List RegisterWrite} (hh : h.Writes ws)
    (c : Console σ ι) :
    ∃ c', call h c = .ok () c' ∧
      c'.machine.registers = c.machine.registers.writeAll ws := by
  obtain ⟨⟨hardware, registers, powered, cycles, statistics⟩, settings, p, s, journal, now,
    lastTurns⟩ := c
  obtain ⟨hardware', on, hb⟩ := hh ⟨hardware, registers, powered⟩
  refine ⟨⟨⟨hardware', registers.writeAll ws, on, cycles, statistics⟩, settings, p, s, journal, now,
    lastTurns⟩, ?_, rfl⟩
  simp only [call, Rig.call, hb]

theorem callCoprocessors_writes (tv : TvStandard) (print : Fingerprint)
    {ws₀ ws₁ : List RegisterWrite}
    (hcop0 : hw.powerOnCop0.Writes ws₀) (hcop1 : hw.powerOnCop1.Writes ws₁) (c : Console σ ι) :
    ∃ c', callCoprocessors hw tv print c = .ok print.seed c' ∧
      c'.machine.registers = c.machine.registers.writeAll (ws₀ ++ ws₁) := by
  obtain ⟨c₀, hcall₀, hregisters₀⟩ := call_writes hcop0 c
  obtain ⟨c₁, hcall₁, hregisters₁⟩ := call_writes hcop1 c₀
  refine ⟨c₁.say .caller (.resetDone tv print.chip? print.seed), ?_, ?_⟩
  · unfold callCoprocessors
    rw [bind_of_ok hcall₀, bind_of_ok hcall₁, bind_of_ok (modify_apply _ _)]
    rfl
  · rw [Registers.writeAll_append, ← hregisters₀]
    exact hregisters₁

theorem reset_writes (tv : TvStandard) (c : Console σ ι) {ws₀ ws₁ : List RegisterWrite}
    (hcop0 : hw.powerOnCop0.Writes ws₀) (hcop1 : hw.powerOnCop1.Writes ws₁) :
    ∃ c', reset hw tv c = .ok ((c.joined hw).print hw).seed c' ∧
      c'.machine.registers =
        (BootState.registers c.settings tv ((c.joined hw).print hw).seed).writeAll
          (ws₀ ++ ws₁) := by
  have hboot := callCoprocessors_writes tv ((c.shutdown hw).print hw) hcop0 hcop1
    ((c.shutdown hw).booted hw tv)
  rwa [← reset_eq, registers_booted, settings_shutdown, print_shutdown] at hboot

theorem off_reset (hhw : hw.KeepsOff) (h : c.Genuine hw) (tv : TvStandard) :
    (endState (reset hw tv c)).powered = false := by
  have hcall {hook : Hook σ Unit} (hhook : hook.KeepsOff) :
      Keeps (fun d : Console σ ι => d.powered = false) (call hook) := by
    intro d hd
    unfold powered machine
    rw [rig_call]
    exact Rig.keeps_off_call hhook d.rig hd
  exact endState_reset hw tv c (I := fun d => d.powered = false) (off_shutdown hhw h)
    (hcall hhw.powerOnCop0) (hcall hhw.powerOnCop1) fun _ _ _ hd => hd

theorem print_congr {τ κ : Type} {hw' : Hardware τ κ} {d : Console τ κ}
    (h : ∀ a, 0x10000040 ≤ a → a < 0x10001000 →
      hw'.readByte d.rig.hardware a = hw.readByte c.rig.hardware a) :
    d.print hw' = c.print hw := Fingerprint.ofMemory_congr h

/-! ## No trace of the past -/

/-- The registers after a reset are the boot state and what the coprocessors write over it, whatever
the console did before. From memory they take the boot code alone. -/
theorem boot_state_forgets_the_past (hw : Hardware σ ι) (tv : TvStandard) (c : Console σ ι)
    {ws₀ ws₁ : List RegisterWrite} (hcop0 : hw.powerOnCop0.Writes ws₀)
    (hcop1 : hw.powerOnCop1.Writes ws₁) :
    (∃ seed c', reset hw tv c = .ok seed c' ∧
      seed = (Fingerprint.ofMemory (hw.readByte (c.joined hw).rig.hardware)).seed ∧
      (hw.KeepsOff → c.Genuine hw → c'.powered = false) ∧
      ∀ x, c'.machine.registers.read x =
        if x = .r0 then 0
        else (lastWrite x (ws₀ ++ ws₁)).getD (BootState.value c.settings tv seed x)) ∧
    ∀ {τ κ : Type} (hw' : Hardware τ κ) (d : Console τ κ),
      hw'.powerOnCop0.Writes ws₀ → hw'.powerOnCop1.Writes ws₁ → d.settings = c.settings →
      (∀ a, 0x10000040 ≤ a → a < 0x10001000 →
        hw'.readByte (d.joined hw').rig.hardware a = hw.readByte (c.joined hw).rig.hardware a) →
      ∃ seed c' d', reset hw tv c = .ok seed c' ∧ reset hw' tv d = .ok seed d' ∧
        d'.machine.registers = c'.machine.registers ∧
        d'.machine.registers.snapshot = c'.machine.registers.snapshot := by
  obtain ⟨c', hc, hregisters⟩ := reset_writes tv c hcop0 hcop1
  constructor
  · refine ⟨_, c', hc, rfl, fun hhw hgenuine => ?_, fun x => ?_⟩
    · have hoff := off_reset hhw hgenuine tv
      rwa [hc] at hoff
    rw [hregisters]
    split
    · rename_i hx
      subst hx
      rw [Registers.r0_writeAll]
      exact BootState.read_registers _ _ _ .r0
    · rename_i hx
      rw [Registers.read_writeAll _ _ hx, BootState.read_registers]
  · intro τ κ hw' d hcop0' hcop1' hsettings hbytes
    obtain ⟨d', hd, hregisters'⟩ := reset_writes tv d hcop0' hcop1'
    have hprint : (d.joined hw').print hw' = (c.joined hw).print hw := print_congr hbytes
    rw [hprint] at hd
    have hsame : d'.machine.registers = c'.machine.registers := by
      rw [hregisters, hregisters', hprint, hsettings]
    exact ⟨_, c', d', hc, hd, hsame, congrArg Registers.snapshot hsame⟩

theorem testBoard_keepsOff : TestBoard.hardware.KeepsOff where
  fetch _ _ h := h
  poll _ b h := by
    obtain ⟨⟨memory, cost, _ | target, polls, inits, calls, written, polled⟩, registers, on⟩ := b <;>
      exact h
  decode _ _ _ h := h
  execute _ _ h := h
  executeRest _ _ _ _ h := by cases h
  writeScanline _ _ h := h
  pollScanline _ _ h := h
  pollScanlineRest _ _ _ _ h := by cases h
  powerOnCop0 _ h := h
  powerOnCop1 _ h := h

def writingBoard : Hardware TestBoard TestBoard.Instruction :=
  { TestBoard.hardware with
    powerOnCop0 := modify fun b =>
      { b with registers := b.registers.writeAll [.gpr 32 7, .cop0 Cop0.wired 9, .gpr 19 2] }
    powerOnCop1 := modify fun b =>
      { b with registers := b.registers.writeAll [.gpr 51 3, .cop0 33 5] } }

def usedConsole : Console TestBoard TestBoard.Instruction where
  rig := {
    hardware := { polls := 3 }
    machine := { registers := .writeAll {} [.gpr 9 8, .cop0 5 4, .pc 2], powered := true } }
  processorTask := some (.ready 6)
  scanlineTask := some (.failed .accumulatorOverflow)

theorem boot_state_of_usedConsole :
    ∃ seed c' d', reset writingBoard .pal usedConsole = .ok seed c' ∧
      reset writingBoard .pal (.ofHardware {} {}) = .ok seed d' ∧
      d'.machine.registers = c'.machine.registers ∧ c'.powered = false ∧
      [.r0, .gpr 9, .gpr 19, .cop0 1, .cop0 5, .cop0 6, .pc].map c'.machine.registers.read =
        [0, 0, 3, 5, 0, 9, 0xa4000040] := by
  have hcop0 : writingBoard.powerOnCop0.Writes [.gpr 32 7, .cop0 Cop0.wired 9, .gpr 19 2] :=
    fun b => ⟨b.hardware, b.powered, rfl⟩
  have hcop1 : writingBoard.powerOnCop1.Writes [.gpr 51 3, .cop0 33 5] :=
    fun b => ⟨b.hardware, b.powered, rfl⟩
  have hkeepsOff : writingBoard.KeepsOff :=
    { testBoard_keepsOff with powerOnCop0 := fun _ h => h, powerOnCop1 := fun _ h => h }
  have hgenuine : usedConsole.Genuine writingBoard := by
    constructor <;> rintro _ _ _ ⟨⟩
  obtain ⟨⟨seed, c', hc, -, hoff, hread⟩, hsame⟩ :=
    boot_state_forgets_the_past writingBoard .pal usedConsole hcop0 hcop1
  obtain ⟨seed', c'', d', hc', hd, hregisters, -⟩ :=
    hsame writingBoard (.ofHardware {} {}) hcop0 hcop1 rfl fun _ _ _ => rfl
  obtain ⟨rfl, rfl⟩ := EStateM.Result.ok.inj (hc.symm.trans hc')
  refine ⟨seed, c', d', hc, hd, hregisters, hoff hkeepsOff hgenuine, ?_⟩
  rw [funext hread]
  rfl

end Console

end ConsoleCore
