import ConsoleCore.Proofs.Console.Ledger
import ConsoleCore.Proofs.Console.Untouched
import ConsoleCore.Proofs.Processor.Agreement

/-!
# A session is a run of single steps

In a session the processor works in a task of its own, interleaved with the scanline timer, and its
instructions can wait in the middle. If nothing but the processor touches the core of the hardware,
it gets where the same number of steps on the caller's thread would have brought it after a reset.
-/

namespace ConsoleCore

variable {σ ι α κ : Type}

/-! ## Hooks that stay away from the core -/

structure Hook.Quiet (core : σ → κ) (h : Hook σ α) : Prop where
  hardware : h.Spares core
  registers : ∀ b, (endState (h b)).registers = b.registers

/-- The video side and `init` leave the core and the registers alone. -/
structure Hardware.QuietAround (hw : Hardware σ ι) (core : σ → κ) : Prop where
  init : hw.init.Quiet core
  writeScanline : ∀ line, (hw.writeScanline line).Quiet core
  pollScanline : ∀ line, (hw.pollScanline line).Quiet core
  pollScanlineRest : ∀ line b hold b', hw.pollScanline line b = .ok (some hold) b' →
    hold.resume.Quiet core

variable {hw : Hardware σ ι} {core : σ → κ}

theorem Rig.keeps_agree_call {h : Hook σ α} (hh : h.Quiet core) (r₀ : Rig σ) :
    Keeps (fun r : Rig σ => r.Agree core r₀) (Rig.call h) := by
  intro r hr
  have hhardware := (hh.hardware r.bus).trans hr.hardware
  have hregisters := (hh.registers r.bus).trans hr.registers
  rw [endState_call]
  exact ⟨hhardware, hregisters, hr.cycles, hr.instructions, hr.atLast⟩

/-! ## Counting -/

def sinceCreated (es : List Entry) : Nat :=
  es.foldl (fun | _, .created .. => 0 | n, .executed .. => n + 1) 0

theorem sinceCreated_append_executed (es : List Entry) (o : Owner) (rs : List Receipt) :
    sinceCreated (es ++ rs.map (.executed o)) = sinceCreated es + rs.length := by
  induction rs generalizing es with
  | nil => rw [List.map_nil, List.append_nil, List.length_nil, Nat.add_zero]
  | cons r rs ih =>
    have hsnoc : sinceCreated (es ++ [.executed o r]) = sinceCreated es + 1 := by
      simp only [sinceCreated, List.foldl_append, List.foldl_cons, List.foldl_nil]
    rw [List.map_cons, List.append_cons, ih, hsnoc, List.length_cons]
    omega

def Command.inSession : Command → Bool
  | turn _ | setPowered _ | pass _ | plan _ => true
  | reset _ | powerOn .. | shutdown | drop => false

namespace Console

open Processor (steps)

/-! ## In step -/

/-- The processor's task is where `n` steps from `start` would have brought a processor. -/
inductive InStep (hw : Hardware σ ι) (core : σ → κ) (start : Processor σ) (c : Console σ ι)
    (n : Nat) : Prop where
  | ready {accumulator q} (task : c.processorTask = some (.ready accumulator))
      (steps : steps hw n start = .ok () q)
      (agree : Processor.Agree core ⟨c.rig, accumulator⟩ q)
  | held {accumulator f hold q} (task : c.processorTask = some (.held accumulator f hold))
      (steps : steps hw n start = .ok () q)
      (waits : Processor.Waits hw core ⟨c.rig, accumulator⟩ f hold q)
  | stopped {q} (task : c.processorTask = some .stopped) (steps : steps hw n start = .ok () q)
      (agree : c.rig.Agree core q.toRig)
  | failed {fault} (task : c.processorTask = some (.failed fault))

variable {start : Processor σ} {c d : Console σ ι} {n : Nat}

theorem InStep.congr (h : InStep hw core start c n) (htask : d.processorTask = c.processorTask)
    (hrig : d.rig.Agree core c.rig) : InStep hw core start d n := by
  cases h with
  | ready task steps agree =>
    exact .ready (htask.trans task) steps ⟨hrig.trans agree.rig, agree.accumulator⟩
  | held task steps waits => exact .held (htask.trans task) steps (waits.congr hrig rfl)
  | stopped task steps agree => exact .stopped (htask.trans task) steps (hrig.trans agree)
  | failed task => exact .failed (htask.trans task)

theorem InStep.of_ready (h : InStep hw core start c n) {accumulator : UInt64}
    (ready : c.processorTask = some (.ready accumulator)) :
    ∃ q, steps hw n start = .ok () q ∧ Processor.Agree core ⟨c.rig, accumulator⟩ q := by
  cases h with
  | ready task steps agree =>
    cases ready.symm.trans task
    exact ⟨_, steps, agree⟩
  | held task | stopped task | failed task => cases ready.symm.trans task

theorem InStep.of_held (h : InStep hw core start c n) {accumulator : UInt64}
    {f : Processor.InFlight ι} {hold : Hold σ}
    (held : c.processorTask = some (.held accumulator f hold)) :
    ∃ q, steps hw n start = .ok () q ∧ Processor.Waits hw core ⟨c.rig, accumulator⟩ f hold q := by
  cases h with
  | held task steps waits =>
    cases held.symm.trans task
    exact ⟨_, steps, waits⟩
  | ready task | stopped task | failed task => cases held.symm.trans task

theorem InStep.of_stopped (h : InStep hw core start c n)
    (stopped : c.processorTask = some .stopped) :
    ∃ q, steps hw n start = .ok () q ∧ c.rig.Agree core q.toRig := by
  cases h with
  | stopped task steps agree => exact ⟨_, steps, agree⟩
  | ready task | held task | failed task => cases stopped.symm.trans task

/-- What the task has executed, a processor that takes one more step executes too. -/
theorem InStep.execution (hhw : hw.LooksAt core) (h : InStep hw core start c n)
    {accumulator : UInt64} {act f p} (work : Work hw c accumulator act)
    (hact : act ⟨c.rig, accumulator⟩ = .ok (f, none) p) :
    ∃ q q', steps hw n start = .ok () q ∧ Processor.Call.step.execution hw q = .ok f q' ∧
      p.Agree core q' := by
  cases work with
  | launches ready =>
    obtain ⟨q, hsteps, hagree⟩ := h.of_ready ready
    obtain ⟨q', hexecution, hagree'⟩ := hagree.execution hhw hact
    exact ⟨q, q', hsteps, hexecution, hagree'⟩
  | resumes held =>
    obtain ⟨q, hsteps, hwaits⟩ := h.of_held held
    obtain ⟨_, p', hresume, hpure⟩ := bind_ok_iff.mp hact
    cases hpure
    obtain ⟨q', hexecution, hagree⟩ := hwaits.execution hresume
    exact ⟨q, q', hsteps, hexecution, hagree⟩

theorem InStep.processorTurn (hhw : hw.LooksAt core) (h : InStep hw core start c n) :
    InStep hw core start (c.processorTurn hw) (n + (c.receipts hw).length) := by
  have hround := round_spec hw c
  generalize c.processorTurn hw = d at hround
  generalize c.receipts hw = rs at hround
  cases hround with
  | nothing => exact h
  | finish ready =>
    obtain ⟨q, hsteps, hagree⟩ := h.of_ready ready
    have hstopwatch : c.endProcessor.rig.Agree core c.rig := ⟨rfl, rfl, rfl, rfl, rfl⟩
    exact .stopped rfl hsteps (hstopwatch.trans hagree.rig)
  | faults | overflows => exact .failed rfl
  | waits work hact =>
    cases work with
    | launches ready =>
      obtain ⟨q, hsteps, hagree⟩ := h.of_ready ready
      exact .held rfl hsteps (hagree.waits hhw hact)
    | resumes held =>
      -- The rest of an instruction does not wait again.
      obtain ⟨_, _, -, hpure⟩ := bind_ok_iff.mp hact
      cases hpure
  | completes work hact room =>
    obtain ⟨q, q', hsteps, hexecution, hagree⟩ := h.execution hhw work hact
    have hstep := Processor.step_of_execution hexecution (hagree.hasRoom hhw room)
    exact .ready rfl (Processor.steps_snoc hsteps hstep) (hagree.retired hhw _)

theorem InStep.scanlineTurn (hquiet : hw.QuietAround core) (hgenuine : c.Genuine hw)
    (h : InStep hw core start c n) : InStep hw core start (c.scanlineTurn hw) n := by
  have hturn := scanlineTurn_spec hw c
  refine h.congr hturn.processorTask_eq (hturn.rig_keeps (J := fun r => r.Agree core c.rig)
    (fun line => Rig.keeps_agree_call (hquiet.writeScanline line) _)
    (fun line => Rig.keeps_agree_call (hquiet.pollScanline line) _)
    (fun _ _ hold held => ?_) (.refl _))
  obtain ⟨line, b, b', hpoll⟩ := hgenuine.scanlines _ _ _ held
  exact Rig.keeps_agree_call (hquiet.pollScanlineRest line b hold b' hpoll) _

/-! ## Through a session -/

variable {es : List Entry}

theorem InStep.turn (hhw : hw.LooksAt core) (hquiet : hw.QuietAround core)
    (hgenuine : c.Genuine hw) (h : InStep hw core start c (sinceCreated es)) (t : Turn) :
    InStep hw core start (c.turn hw t) (sinceCreated (es ++ c.turnEntries hw t)) := by
  cases t with
  | processor =>
    rw [turnEntries, sinceCreated_append_executed]
    exact h.processorTurn hhw
  | scanlines =>
    rw [turnEntries, List.append_nil]
    exact h.scanlineTurn hquiet hgenuine

theorem InStep.turns (hhw : hw.LooksAt core) (hquiet : hw.QuietAround core)
    (hgenuine : c.Genuine hw) (h : InStep hw core start c (sinceCreated es))
    (schedule : List Turn) :
    InStep hw core start (c.turns hw schedule)
      (sinceCreated (es ++ turnsEntries hw schedule c)) := by
  induction schedule generalizing c es with
  | nil =>
    rw [turnsEntries, List.append_nil]
    exact h
  | cons t schedule ih =>
    rw [turnsEntries, ← List.append_assoc]
    exact ih (hgenuine.turn t) (h.turn hhw hquiet hgenuine t)

theorem InStep.joined (hhw : hw.LooksAt core) (hquiet : hw.QuietAround core)
    (hgenuine : c.Genuine hw) (h : InStep hw core start c (sinceCreated es)) :
    InStep hw core start (c.joined hw) (sinceCreated (es ++ c.shutdownEntries hw)) := by
  have hoff : InStep hw core start (c.setPowered false) (sinceCreated es) :=
    h.congr rfl ⟨rfl, rfl, rfl, rfl, rfl⟩
  have hgenuine' : (c.setPowered false).Genuine hw := hgenuine.of_tasks rfl rfl
  exact hoff.turns hhw hquiet hgenuine' c.joiningTurns

theorem InStep.perform (hhw : hw.LooksAt core) (hquiet : hw.QuietAround core)
    (hgenuine : c.Genuine hw) (h : InStep hw core start c (sinceCreated es)) {command : Command}
    (hcommand : command.inSession = true) :
    InStep hw core start (command.perform hw c).2
      (sinceCreated (es ++ command.entries hw c)) := by
  cases command with
  | turn t => exact h.turn hhw hquiet hgenuine t
  | setPowered | pass | plan =>
    rw [Command.entries, List.append_nil]
    exact h.congr rfl ⟨rfl, rfl, rfl, rfl, rfl⟩
  | reset | powerOn | shutdown | drop => cases hcommand

theorem InStep.after (hhw : hw.LooksAt core) (hquiet : hw.QuietAround core)
    (hgenuine : c.Genuine hw) (h : InStep hw core start c (sinceCreated es))
    {events : List Command} (hevents : ∀ event ∈ events, event.inSession = true) :
    InStep hw core start (c.after hw events) (sinceCreated (es ++ c.ledger hw events)) := by
  induction events generalizing c es with
  | nil =>
    rw [ledger, List.append_nil]
    exact h
  | cons event events ih =>
    rw [List.forall_mem_cons] at hevents
    rw [ledger, ← List.append_assoc]
    exact ih (hgenuine.perform event) (h.perform hhw hquiet hgenuine hevents.1) hevents.2

theorem ledger_concat (c : Console σ ι) (commands : List Command) (command : Command) :
    c.ledger hw (commands ++ [command]) =
      c.ledger hw commands ++ command.entries hw (c.after hw commands) := by
  induction commands generalizing c with
  | nil => exact List.append_nil _
  | cons first commands ih =>
    rw [List.cons_append, ledger, ih, ledger, List.append_assoc]
    rfl

theorem inStep_of_powerOn (hhw : hw.LooksAt core) (hquiet : hw.QuietAround core) {tv : TvStandard}
    {host : Host} (hon : powerOn hw tv host c = .ok (.ok ()) d) :
    ∃ seed r, reset hw tv c = .ok seed r ∧ d.Genuine hw ∧
      InStep hw core ⟨r.rig, 0⟩ d (sinceCreated (c.powerOnEntries hw tv host)) := by
  obtain ⟨e, hboot, hanswer, rfl⟩ := (powerOn_ok_iff hw tv host c).mp hon
  have hgrants := Host.grants_of_answer hanswer.symm
  obtain ⟨seed, r, hreset, hinit⟩ := bootUp_ok_iff.mp hboot
  obtain ⟨said, hreset'⟩ := reset_of_noted hreset
  have hentries : c.powerOnEntries hw tv host =
      (c.noted.shutdownEntries hw ++ [.created .task e.machine]) ++
        turnsEntries hw host.firstTurns e.startProcessor := by
    unfold powerOnEntries spawnEntries
    rw [hboot, hgrants.1, hgrants.2, List.append_assoc]
    rfl
  -- The count begins with the task's processor, after what the shutdown has executed.
  have hzero : sinceCreated (c.noted.shutdownEntries hw ++ [.created .task e.machine]) = 0 := by
    rw [sinceCreated, List.foldl_append]
    rfl
  have hrig : e.rig.Agree core r.rig := by
    have hcall := Rig.keeps_agree_call hquiet.init r.rig (r.setPowered true).rig
      ⟨rfl, rfl, rfl, rfl, rfl⟩
    rw [← rig_call, hinit] at hcall
    exact hcall
  have hstart : InStep hw core ⟨r.rig, 0⟩ e.startProcessor
      (sinceCreated (c.noted.shutdownEntries hw ++ [.created .task e.machine])) := by
    rw [hzero]
    exact .ready rfl rfl ⟨⟨hrig.hardware, hrig.registers, hrig.cycles, hrig.instructions,
      hrig.atLast⟩, rfl⟩
  have hstarted : e.startProcessor.Genuine hw :=
    (idle_of_bootUp hboot).genuine_startProcessor hw
  have hhead := hstart.turns hhw hquiet hstarted host.firstTurns
  have hgenuine : (e.withHeadStart hw host).Genuine hw := hstarted.turns host.firstTurns
  rw [spawned_of_grants hw e hgrants, hentries]
  refine ⟨seed, _, hreset', ⟨hgenuine.processor, ?_⟩, hhead.congr rfl (.refl _)⟩
  rintro _ _ _ ⟨⟩

/-- A session ends like the same number of steps of a new processor after a reset, unless the
processor fails. -/
theorem session_is_single_stepping (hw : Hardware σ ι) {core : σ → κ} (hhw : hw.LooksAt core)
    (hquiet : hw.QuietAround core) (c d : Console σ ι) (tv : TvStandard) (host : Host)
    (hon : powerOn hw tv host c = .ok (.ok ()) d) (events : List Command)
    (hevents : ∀ event ∈ events, event.inSession = true)
    (hend : ((d.after hw events).joined hw).processorTask = some .stopped) :
    let n := sinceCreated (c.ledger hw (.powerOn tv host :: (events ++ [.shutdown])))
    let e := (d.after hw events).shutdown hw
    ∃ seed r p, reset hw tv c = .ok seed r ∧ Processor.steps hw n ⟨r.rig, 0⟩ = .ok () p ∧
      e.machine.registers = p.registers ∧
      (∀ a, hw.readByte e.rig.hardware a = hw.readByte p.hardware a) ∧
      e.machine.cycles = p.machine.cycles ∧
      e.machine.statistics.instructions = p.machine.statistics.instructions ∧
      e.machine.statistics.cycles = p.machine.statistics.cycles := by
  intro n e
  obtain ⟨seed, r, hreset, hgenuine, hstart⟩ := inStep_of_powerOn hhw hquiet hon
  have hafter := hstart.after hhw hquiet hgenuine hevents
  have hjoined := hafter.joined hhw hquiet (hgenuine.after events)
  have hn : n = sinceCreated (c.powerOnEntries hw tv host ++ d.ledger hw events ++
      (d.after hw events).shutdownEntries hw) := by
    have hperform : ((Command.powerOn tv host).perform hw c).2 = d := by
      simp only [Command.perform, hon]
    change sinceCreated (c.ledger hw (.powerOn tv host :: (events ++ [.shutdown]))) = _
    rw [ledger, hperform, ledger_concat, List.append_assoc]
    rfl
  rw [← hn] at hjoined
  obtain ⟨p, hsteps, hagree⟩ := hjoined.of_stopped hend
  rw [← rig_shutdown] at hagree
  exact ⟨seed, r, p, hreset, hsteps, hagree.registers, hhw.readByte _ _ hagree.hardware,
    hagree.cycles, hagree.instructions, hagree.atLast⟩

def failingBoard : Hardware TestBoard TestBoard.Instruction :=
  { TestBoard.hardware with
    poll := fun _ => pure ()
    cycles := fun _ b => (2, b)
    pollScanline := fun _ => do
      modify fun b => { b with powered := false }
      throw (.hardware "no signal") }

theorem failingBoard_looksAt :
    failingBoard.LooksAt fun b : TestBoard => (b.memory, b.cost) where
  readByte s s' h a := by
    change s.memory.read a = s'.memory.read a
    rw [(Prod.mk.inj h).1]
  fetch address := by
    rintro b b' hb _ _ ⟨⟩
    obtain ⟨hmemory, -⟩ := Prod.mk.inj hb.hardware
    refine ⟨_, b', rfl, ?_, hb⟩
    simp only [Memory.readWord, TestBoard.memoryAccess, hmemory]
  poll _ := Follows.pure rfl
  decode opcode flags := by
    rintro b b' hb _ _ ⟨⟩
    obtain ⟨-, hcost⟩ := Prod.mk.inj hb.hardware
    refine ⟨_, b', rfl, ?_, hb⟩
    rw [hcost]
  execute i := by
    rintro b b' hb _ _ ⟨⟩
    exact ⟨_, _, rfl, .ended, hb.hardware, congrArg i.apply hb.registers⟩
  cycles _ _ _ h := ⟨rfl, h⟩

theorem failingBoard_quietAround :
    failingBoard.QuietAround fun b : TestBoard => (b.memory, b.cost) where
  init := ⟨fun _ => rfl, fun _ => rfl⟩
  writeScanline _ := ⟨fun _ => rfl, fun _ => rfl⟩
  pollScanline _ := ⟨fun _ => rfl, fun _ => rfl⟩
  pollScanlineRest _ _ _ _ h := by cases h

theorem processorTurn_failingBoard {c : Console TestBoard TestBoard.Instruction}
    {accumulator : UInt64} (ready : c.processorTask = some (.ready accumulator))
    (on : c.powered = true) (h : accumulator = 0 ∨ accumulator = 2) :
    (c.receipts failingBoard).length = 1 ∧
      (c.processorTurn failingBoard).processorTask = some (.ready (accumulator + 2)) ∧
      (c.processorTurn failingBoard).powered = true ∧
      (c.processorTurn failingBoard).scanlineTask = c.scanlineTask := by
  obtain ⟨⟨hardware, registers, powered, cycles, statistics⟩, settings, p, s, journal, now,
    lastTurns⟩ := c
  cases ready
  cases on
  rcases h with rfl | rfl
  · exact ⟨rfl, rfl, rfl, rfl⟩
  · exact ⟨rfl, rfl, rfl, rfl⟩

theorem scanlineTurn_failingBoard {c : Console TestBoard TestBoard.Instruction}
    {accumulator : UInt64} {line : Fin scanlines × Duration}
    (ready : c.processorTask = some (.ready accumulator)) (on : c.powered = true)
    (lines : c.scanlineTask = some (.ready line)) :
    let d := (c.plan [.scanlines, .processor]).scanlineTurn failingBoard
    (d.joined failingBoard).processorTask = some .stopped ∧
      Task.hasFailed d.scanlineTask = true ∧ d.shutdownEntries failingBoard = [] := by
  obtain ⟨⟨hardware, registers, powered, cycles, statistics⟩, settings, p, s, journal, now,
    lastTurns⟩ := c
  cases ready
  cases on
  cases lines
  exact ⟨rfl, rfl, rfl⟩

theorem session_of_failingBoard :
    let events : List Command :=
      [.turn .processor, .turn .processor, .plan [.scanlines, .processor], .turn .scanlines]
    ∃ d, powerOn failingBoard .pal {} usedConsole = .ok (.ok ()) d ∧
      Task.hasFailed (d.after failingBoard events).scanlineTask = true ∧
      ∃ seed r p, reset failingBoard .pal usedConsole = .ok seed r ∧
        Processor.steps failingBoard 2 ⟨r.rig, 0⟩ = .ok () p ∧
        let e := (d.after failingBoard events).shutdown failingBoard
        e.machine.registers = p.registers ∧ e.machine.cycles = p.machine.cycles := by
  intro events
  have hinit : failingBoard.InitSparesMachine := fun b => ⟨_, rfl, fun _ => rfl⟩
  have hcop0 : failingBoard.powerOnCop0.Writes [] := fun b => ⟨_, b.powered, rfl⟩
  have hcop1 : failingBoard.powerOnCop1.Writes [] := fun b => ⟨_, b.powered, rfl⟩
  obtain ⟨r, hreset, -⟩ := reset_writes .pal usedConsole hcop0 hcop1
  obtain ⟨e, hboot, hprepared⟩ := exists_prepared hinit hreset
  have hon : powerOn failingBoard .pal {} usedConsole =
      .ok (.ok ()) e.startProcessor.startScanlines :=
    (powerOn_ok_iff failingBoard .pal {} usedConsole).mpr ⟨e, hboot, rfl, rfl⟩
  have hpowered : e.machine.powered = true := by rw [hprepared.machine]; rfl
  obtain ⟨hcount₁, ready₁, on₁, lines₁⟩ := processorTurn_failingBoard
    (c := e.startProcessor.startScanlines) rfl hpowered (.inl rfl)
  obtain ⟨hcount₂, ready₂, on₂, lines₂⟩ := processorTurn_failingBoard ready₁ on₁ (.inr rfl)
  obtain ⟨r₁, hr₁⟩ := List.length_eq_one_iff.mp hcount₁
  obtain ⟨r₂, hr₂⟩ := List.length_eq_one_iff.mp hcount₂
  obtain ⟨hend, hfailed, hnothing⟩ :=
    scanlineTurn_failingBoard ready₂ on₂ (lines₂.trans lines₁)
  have hn : sinceCreated
      (usedConsole.ledger failingBoard (.powerOn .pal {} :: (events ++ [.shutdown]))) = 2 := by
    simp only [events, List.cons_append, List.nil_append, ledger, Command.entries, Command.perform,
      powerOnEntries, hboot, hon, turn, turnEntries, hr₁, hr₂, hnothing]
    rfl
  have hsession := session_is_single_stepping failingBoard failingBoard_looksAt
    failingBoard_quietAround usedConsole _ .pal {} hon events (by decide) hend
  rw [hn] at hsession
  obtain ⟨seed, r', p, hreset', hsteps, hregisters, -, hcycles, -⟩ := hsession
  exact ⟨_, hon, hfailed, seed, r', p, hreset', hsteps, hregisters, hcycles⟩

end Console

end ConsoleCore
