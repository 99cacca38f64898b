import ConsoleCore.Proofs.Memory
import ConsoleCore.Proofs.Console.Untouched

/-!
# When the host refuses a thread

By then the registers, the memory, the flag and the instruction set are prepared, and the
processor's task may have run. A refusal leaves the console switched off all the same, and the next
power on finds nothing that it would not have found without it.
-/

namespace ConsoleCore

variable {σ ι : Type}

namespace Console

variable {hw : Hardware σ ι} {tv : TvStandard} {host : Host} {c d : Console σ ι}

/-! ## Starting once more -/

/-- The power on is granted, and the processor's task finds these registers. -/
def StartsFrom (hw : Hardware σ ι) (tv : TvStandard) (host : Host) (c : Console σ ι)
    (registers : Registers) : Prop :=
  ∃ e : Console σ ι, powerOn hw tv host c = .ok (.ok ()) (e.withHeadStart hw host).startScanlines ∧
    e.Idle ∧ e.machine.registers = registers

theorem startsFrom_of_reset (hinit : hw.InitSparesMachine) (hhost : host.Grants) {seed : UInt32}
    (hreset : reset hw tv c = .ok seed d) : StartsFrom hw tv host c d.machine.registers := by
  obtain ⟨e, hboot, hprepared⟩ := exists_prepared hinit hreset
  refine ⟨e, (powerOn_ok_iff hw tv host c).mpr ⟨e, hboot, ?_, ?_⟩, hprepared.idle, ?_⟩
  · exact (Host.answer_of_grants hhost).symm
  · exact (spawned_of_grants hw e hhost).symm
  · rw [hprepared.machine]
    rfl

/-! ## What a refusal leaves behind -/

variable {e : Console σ ι}

theorem processorTask_givenUp (hoffs : hw.KeepsOff) (hidle : e.Idle) (host : Host) :
    ((e.withHeadStart hw host).joined hw).processorTask = some .stopped ∨
      ∃ fault, ((e.withHeadStart hw host).joined hw).processorTask = some (.failed fault) := by
  have hgenuine : (e.withHeadStart hw host).Genuine hw :=
    (hidle.genuine_startProcessor hw).turns host.firstTurns
  have hhead := (sameSession_turns hw e.startProcessor host.firstTurns).processor
  have hsome : ((e.withHeadStart hw host).joined hw).processorTask.isSome = true :=
    (sameSession_joined hw (e.withHeadStart hw host)).processor.trans (hhead.trans rfl)
  have hleft := (ended_joined hoffs hgenuine).1
  obtain ⟨task, htask⟩ := Option.isSome_iff_exists.mp hsome
  rw [htask] at hleft
  rw [htask]
  cases task with
  | ready | held => cases hleft
  | stopped => exact .inl rfl
  | failed fault => exact .inr ⟨fault, rfl⟩

theorem inits_of_prepared {r : Console σ ι} {seed : UInt32} (hreset : reset hw tv c = .ok seed r)
    (hprepared : Prepared hw r e) (hoffs : hw.KeepsOff) (hgenuine : c.Genuine hw)
    {inits : σ → Nat} (hcalls : hw.CallsSpare inits)
    (hone : ∀ b, inits (endState (hw.init b)).hardware = inits b.hardware + 1) :
    inits e.rig.hardware = inits c.rig.hardware + 1 :=
  calc inits e.rig.hardware
      = inits r.rig.hardware + 1 := by rw [← hprepared.init]; exact hone _
    _ = inits c.rig.hardware + 1 := by rw [view_reset hcalls hgenuine (.inr hoffs) hreset]

theorem view_givenUp {β : Type} {lines : σ → β} {r : Console σ ι} {seed : UInt32}
    (hreset : reset hw tv c = .ok seed r) (hprepared : Prepared hw r e) (hoffs : hw.KeepsOff)
    (hgenuine : c.Genuine hw) (hcalls : hw.CallsSpare lines) (hspares : hw.init.Spares lines)
    (host : Host) :
    lines ((e.withHeadStart hw host).shutdown hw).rig.hardware = lines c.rig.hardware :=
  calc lines ((e.withHeadStart hw host).shutdown hw).rig.hardware
      = lines e.rig.hardware := view_shutdown_withHeadStart hcalls hprepared.idle host
    _ = lines r.rig.hardware := by rw [← hprepared.init]; exact hspares _
    _ = lines c.rig.hardware := view_reset hcalls hgenuine (.inr hoffs) hreset

theorem startsFrom_of_refused (hinit : hw.InitSparesMachine) {ws₀ ws₁ : List RegisterWrite}
    (hcop0 : hw.powerOnCop0.Writes ws₀) (hcop1 : hw.powerOnCop1.Writes ws₁)
    {failure : SpawnFailure} (hon : powerOn hw tv host c = .ok (.error failure) d)
    (hwindow : ∀ a, 0x10000040 ≤ a → a < 0x10001000 →
      hw.readByte d.rig.hardware a = hw.readByte (c.joined hw).rig.hardware a)
    {host' : Host} (hhost' : host'.Grants) :
    ∃ registers, StartsFrom hw tv host' c registers ∧ StartsFrom hw tv host' d registers ∧
      registers = (BootState.registers c.settings tv
        ((c.joined hw).print hw).seed).writeAll (ws₀ ++ ws₁) := by
  obtain ⟨r, hreset, hregisters⟩ := reset_writes tv c hcop0 hcop1
  obtain ⟨r', hreset', hregisters'⟩ := reset_writes tv d hcop0 hcop1
  have hidle := idle_perform hw (c := c) (.powerOn tv host)
  simp only [Command.perform, hon] at hidle
  have hsettings : d.settings = c.settings := by
    obtain ⟨e, hboot, -, rfl⟩ := (powerOn_ok_iff hw tv host c).mp hon
    obtain ⟨e', hboot', hprepared⟩ := exists_prepared hinit hreset
    cases hboot.symm.trans hboot'
    rw [settings_spawned, hprepared.settings, settings_of_reset hreset]
  have hprint : (d.joined hw).print hw = (c.joined hw).print hw := by
    rw [(hidle rfl).ended.joined]
    exact print_congr (c := c.joined hw) hwindow
  rw [hprint, hsettings] at hregisters'
  exact ⟨_, hregisters ▸ startsFrom_of_reset hinit hhost' hreset,
    hregisters' ▸ startsFrom_of_reset hinit hhost' hreset', rfl⟩

/-- A refused thread leaves a console as a reset does, and the next power on starts as if nothing
had been refused. -/
theorem refusal_leaves_clean_console (hw : Hardware σ ι) (hinit : hw.InitSparesMachine)
    {ws₀ ws₁ : List RegisterWrite} (hcop0 : hw.powerOnCop0.Writes ws₀)
    (hcop1 : hw.powerOnCop1.Writes ws₁) (c : Console σ ι) (tv : TvStandard) (host : Host) :
    (∀ cause, host.processorRefusal = some cause →
      ∃ seed r d, reset hw tv c = .ok seed r ∧
        powerOn hw tv host c = .ok (.error { task := "CPU", cause }) d ∧
        d.powered = false ∧ d.Idle ∧ d.machine.setPowered r.powered = r.machine ∧
        (∀ a, hw.readByte d.rig.hardware a = hw.readByte r.rig.hardware a) ∧
        (endState (hw.init ⟨r.rig.hardware, r.machine.registers, true⟩)).hardware =
          d.rig.hardware ∧
        (hw.KeepsOff → c.Genuine hw → d.machine = r.machine ∧
          ∀ inits : σ → Nat, hw.CallsSpare inits →
            (∀ b, inits (endState (hw.init b)).hardware = inits b.hardware + 1) →
            inits d.rig.hardware = inits c.rig.hardware + 1)) ∧
    (∀ cause, host.processorRefusal = none → host.scanlineRefusal = some cause →
      ∃ seed r e d, reset hw tv c = .ok seed r ∧ Prepared hw r e ∧
        powerOn hw tv host c = .ok (.error { task := "video timer", cause }) d ∧ d.Idle ∧
        d.rig = ((e.withHeadStart hw host).joined hw).rig ∧
        (∀ rest : List Command, (∀ command ∈ rest, command.isPowerOn = false) →
          ∀ t, (d.after hw rest).turn hw t = d.after hw rest) ∧
        (hw.KeepsOff →
          d.powered = false ∧
          (((e.withHeadStart hw host).joined hw).processorTask = some .stopped ∨
            ∃ fault,
              ((e.withHeadStart hw host).joined hw).processorTask = some (.failed fault)) ∧
          (c.Genuine hw → ∀ {β : Type} (lines : σ → β), hw.CallsSpare lines →
            hw.init.Spares lines → lines d.rig.hardware = lines c.rig.hardware))) ∧
    ∀ failure d, powerOn hw tv host c = .ok (.error failure) d →
      (∀ a, 0x10000040 ≤ a → a < 0x10001000 →
        hw.readByte d.rig.hardware a = hw.readByte (c.joined hw).rig.hardware a) →
      ∀ host' : Host, host'.Grants → ∃ registers,
        StartsFrom hw tv host' c registers ∧ StartsFrom hw tv host' d registers ∧
        registers = (BootState.registers c.settings tv
          ((c.joined hw).print hw).seed).writeAll (ws₀ ++ ws₁) := by
  obtain ⟨r, hreset, -⟩ := reset_writes tv c hcop0 hcop1
  obtain ⟨e, hboot, hprepared⟩ := exists_prepared hinit hreset
  refine ⟨fun cause hcause => ?_, fun cause hgranted hcause => ?_,
    fun _ _ hon hwindow _ hhost' => startsFrom_of_refused hinit hcop0 hcop1 hon hwindow hhost'⟩
  · refine ⟨_, r, e.setPowered false, hreset, powerOn_of_processorRefusal hw tv c hcause hboot, rfl,
      hprepared.idle, ?_, hprepared.memory, hprepared.init, fun hoffs hgenuine => ⟨?_, ?_⟩⟩
    · exact congrArg (·.setPowered r.powered) hprepared.machine
    · exact hprepared.machine_off (off_of_reset hoffs hgenuine hreset)
    · intro inits hcalls hone
      exact inits_of_prepared hreset hprepared hoffs hgenuine hcalls hone
  · have hidle := idle_shutdown hw (e.withHeadStart hw host)
    refine ⟨_, r, e, (e.withHeadStart hw host).shutdown hw, hreset, hprepared,
      powerOn_of_scanlineRefusal hw tv c hgranted hcause hboot, hidle, rig_shutdown hw _,
      fun rest hrest => (hidle.after hw hrest).turn hw, fun hoffs => ⟨?_, ?_, ?_⟩⟩
    · exact off_shutdown hoffs ((hprepared.idle.genuine_startProcessor hw).turns host.firstTurns)
    · exact processorTask_givenUp hoffs hprepared.idle host
    · intro hgenuine β lines hcalls hspares
      exact view_givenUp hreset hprepared hoffs hgenuine hcalls hspares host

end Console

/-! ## The test board -/

theorem TestBoard.callsSpare {β : Type} {view : TestBoard → β}
    (hpoll : ∀ b polls jump, view { b with polls, jump } = view b)
    (hcoprocessor : ∀ b n, view { b with coprocessorCalls := n } = view b)
    (hcopy : ∀ b, ∀ i < BootState.length.toNat, ∀ byte,
      view (memoryAccess.writeByte b (BootState.target + UInt32.ofNat i) byte) = view b) :
    hardware.CallsSpare view where
  copyRegion b := memoryAccess.copy_keeps (I := fun b' => view b' = view b)
    (fun i hi b' byte h => (hcopy b' i hi byte).trans h) rfl
  fetch _ _ := rfl
  poll _ b := by
    obtain ⟨⟨memory, cost, _ | target, polls, inits, calls, written, polled⟩, registers, on⟩ := b
    · exact hpoll ⟨memory, cost, none, polls, inits, calls, written, polled⟩ (polls + 1) none
    · exact hpoll ⟨memory, cost, some target, polls, inits, calls, written, polled⟩ (polls + 1) none
  decode _ _ _ := rfl
  execute _ _ := rfl
  executeRest _ _ _ _ h := by cases h
  cycles _ _ := rfl
  pollScanlineRest _ _ _ _ h := by cases h
  powerOnCop0 b := hcoprocessor b.hardware _
  powerOnCop1 b := hcoprocessor b.hardware _

def TestBoard.bootCode (b : TestBoard) (a : UInt32) : Option UInt8 :=
  if b.memory.mask = 0x1fffffff ∧ 0x10000040 ≤ a ∧ a < 0x10001000 then some (b.memory.read a)
  else none

theorem TestBoard.bootCode_writeByte (b : TestBoard) {i : Nat} (hi : i < BootState.length.toNat)
    (byte : UInt8) :
    (memoryAccess.writeByte b (BootState.target + UInt32.ofNat i) byte).bootCode = b.bootCode := by
  funext a
  refine ite_congr rfl (fun ⟨hmask, hfrom, hto⟩ => ?_) fun _ => rfl
  have hmask : b.memory.mask = 0x1fffffff := hmask
  change some ((b.memory.write (BootState.target + UInt32.ofNat i) byte).read a) = _
  rw [SparseMemory.read_write, hmask, if_neg]
  rw [SparseMemory.and_mask_eq_iff, physical_add]
  have htarget : physical BootState.target = 0x04000000 := rfl
  have hlength : BootState.length.toNat = 0xfff := rfl
  have hlower : (0x10000040 : UInt32).toNat = 0x10000040 := rfl
  have hupper : (0x10001000 : UInt32).toNat = 0x10001000 := rfl
  rw [UInt32.le_iff_toNat_le] at hfrom
  rw [UInt32.lt_iff_toNat_lt] at hto
  unfold physical at htarget ⊢
  omega

theorem TestBoard.read_of_bootCode {b b' : TestBoard} (hmask : b.memory.mask = 0x1fffffff)
    (h : b'.bootCode = b.bootCode) {a : UInt32} (hfrom : 0x10000040 ≤ a) (hto : a < 0x10001000) :
    b'.memory.read a = b.memory.read a := by
  have ha := congrFun h a
  rw [bootCode, bootCode, if_pos (c := b.memory.mask = _ ∧ _) ⟨hmask, hfrom, hto⟩] at ha
  split at ha
  · exact Option.some.inj ha
  · cases ha

namespace Console

/-- The console was on when it was asked to power on, and its boot code is still in memory when the
host has got over its refusal. -/
theorem usedConsole_survives_refusals :
    let hw := TestBoard.hardware
    let noThread : Host := { processorRefusal := some "no memory" }
    let oneThread : Host := { headStart := 3, scanlineRefusal := some "no memory" }
    ∃ d e registers,
      powerOn hw .pal noThread usedConsole =
        .ok (.error { task := "CPU", cause := "no memory" }) d ∧
      d.Idle ∧ d.rig.hardware.inits = 1 ∧
      powerOn hw .pal oneThread usedConsole =
        .ok (.error { task := "video timer", cause := "no memory" }) e ∧
      e.Idle ∧ e.powered = false ∧ e.rig.hardware.linesWritten = [] ∧
      StartsFrom hw .pal {} usedConsole registers ∧ StartsFrom hw .pal {} e registers := by
  intro hw noThread oneThread
  have hinit : hw.InitSparesMachine := fun b => ⟨_, rfl, fun _ => rfl⟩
  have hcop0 : hw.powerOnCop0.Writes [] := fun b => ⟨_, b.powered, rfl⟩
  have hcop1 : hw.powerOnCop1.Writes [] := fun b => ⟨_, b.powered, rfl⟩
  have hgenuine : usedConsole.Genuine hw := by
    constructor <;> rintro _ _ _ ⟨⟩
  have hinits : hw.CallsSpare TestBoard.inits :=
    TestBoard.callsSpare (fun _ _ _ => rfl) (fun _ _ => rfl) fun _ _ _ _ => rfl
  have hlines : hw.CallsSpare TestBoard.linesWritten :=
    TestBoard.callsSpare (fun _ _ _ => rfl) (fun _ _ => rfl) fun _ _ _ _ => rfl
  have hcode : hw.CallsSpare TestBoard.bootCode :=
    TestBoard.callsSpare (fun _ _ _ => rfl) (fun _ _ => rfl) fun b _ hi byte =>
      b.bootCode_writeByte hi byte
  obtain ⟨hfirst, -, -⟩ :=
    refusal_leaves_clean_console hw hinit hcop0 hcop1 usedConsole .pal noThread
  obtain ⟨-, hsecond, hagain⟩ :=
    refusal_leaves_clean_console hw hinit hcop0 hcop1 usedConsole .pal oneThread
  obtain ⟨-, r, d, -, hd, -, hdIdle, -, -, -, hdRest⟩ := hfirst _ rfl
  obtain ⟨-, -, e₀, e, -, -, he, heIdle, -, -, heRest⟩ := hsecond _ rfl rfl
  obtain ⟨-, hdInits⟩ := hdRest testBoard_keepsOff hgenuine
  obtain ⟨heOff, -, heView⟩ := heRest testBoard_keepsOff
  have heCode := heView hgenuine TestBoard.bootCode hcode fun _ => rfl
  obtain ⟨registers, hfromHere, hfromE, -⟩ := hagain _ e he
    (fun a hfrom hto => TestBoard.read_of_bootCode rfl heCode hfrom hto) {} ⟨rfl, rfl⟩
  exact ⟨d, e, registers, hd, hdIdle, hdInits _ hinits fun _ => rfl, he, heIdle, heOff,
    heView hgenuine _ hlines fun _ => rfl, hfromHere, hfromE⟩

end Console

end ConsoleCore
