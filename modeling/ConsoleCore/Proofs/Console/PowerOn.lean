import ConsoleCore.Proofs.Console.Lifecycle

/-!
# Switching on, stage by stage

A power on brings the console up and then asks the host for two threads. Only the first stage can
fault; the answer of the second is the host's.
-/

namespace ConsoleCore

variable {σ ι : Type}

def Host.answer (host : Host) : Except SpawnFailure Unit :=
  match host.processorRefusal, host.scanlineRefusal with
  | some cause, _ => .error { task := "CPU", cause }
  | none, some cause => .error { task := "video timer", cause }
  | none, none => .ok ()

def Host.Grants (host : Host) : Prop := host.processorRefusal = none ∧ host.scanlineRefusal = none

theorem Host.answer_of_grants {host : Host} (h : host.Grants) : host.answer = .ok () := by
  obtain ⟨hprocessor, hscanlines⟩ := h
  unfold answer
  rw [hprocessor, hscanlines]

theorem Host.grants_of_answer {host : Host} (h : host.answer = .ok ()) : host.Grants := by
  unfold answer at h
  split at h
  · cases h
  · cases h
  · rename_i hprocessor hscanlines
    exact ⟨hprocessor, hscanlines⟩

/-- The hook leaves machine and memory alone. It may note that it was called. -/
def Hardware.InitSparesMachine (hw : Hardware σ ι) : Prop :=
  ∀ b, ∃ s, hw.init b = .ok () ⟨s, b.registers, b.powered⟩ ∧
    ∀ a, hw.readByte s a = hw.readByte b.hardware a

namespace Console

variable (hw : Hardware σ ι) (tv : TvStandard) (host : Host) (c : Console σ ι)

def noted : Console σ ι := if c.powered then c.say .caller .restarting else c

def bootUp : Action σ ι Unit := do
  let _ ← reset hw tv
  modify (setPowered true)
  call hw.init

def withHeadStart : Console σ ι := c.startProcessor.turns hw host.firstTurns

def spawned : Console σ ι :=
  match host.processorRefusal, host.scanlineRefusal with
  | some _, _ => c.setPowered false
  | none, some _ => (c.withHeadStart hw host).shutdown hw
  | none, none => (c.withHeadStart hw host).startScanlines

theorem spawned_of_grants {host : Host} (h : host.Grants) :
    c.spawned hw host = (c.withHeadStart hw host).startScanlines := by
  obtain ⟨hprocessor, hscanlines⟩ := h
  unfold spawned
  rw [hprocessor, hscanlines]

theorem spawnTasks_eq : spawnTasks hw host c = .ok host.answer (c.spawned hw host) := by
  unfold spawnTasks spawned Host.answer
  cases host.processorRefusal with
  | some cause => rfl
  | none =>
    unfold spawnScanlines
    cases host.scanlineRefusal <;> rfl

theorem powerOn_eq_bootUp :
    powerOn hw tv host c = (bootUp hw tv >>= fun _ => spawnTasks hw host) c.noted := by
  unfold bootUp
  simp only [bind_assoc]
  exact bind_of_ok (modify_apply _ c)

theorem powerOn_ok_iff {answer : Except SpawnFailure Unit} {d : Console σ ι} :
    powerOn hw tv host c = .ok answer d ↔
      ∃ e, bootUp hw tv c.noted = .ok () e ∧ answer = host.answer ∧ d = e.spawned hw host := by
  rw [powerOn_eq_bootUp, bind_ok_iff]
  constructor
  · rintro ⟨⟨⟩, e, hboot, h⟩
    rw [spawnTasks_eq] at h
    cases h
    exact ⟨e, hboot, rfl, rfl⟩
  · rintro ⟨e, hboot, rfl, rfl⟩
    exact ⟨(), e, hboot, spawnTasks_eq hw host e⟩

theorem powerOn_of_processorRefusal {host : Host} {cause : String}
    (h : host.processorRefusal = some cause) {e : Console σ ι}
    (hboot : bootUp hw tv c.noted = .ok () e) :
    powerOn hw tv host c = .ok (.error { task := "CPU", cause }) (e.setPowered false) := by
  refine (powerOn_ok_iff hw tv host c).mpr ⟨e, hboot, ?_, ?_⟩
  · unfold Host.answer
    rw [h]
  · unfold spawned
    rw [h]

theorem powerOn_of_scanlineRefusal {host : Host} {cause : String}
    (hgranted : host.processorRefusal = none) (h : host.scanlineRefusal = some cause)
    {e : Console σ ι} (hboot : bootUp hw tv c.noted = .ok () e) :
    powerOn hw tv host c = .ok (.error { task := "video timer", cause })
      ((e.withHeadStart hw host).shutdown hw) := by
  refine (powerOn_ok_iff hw tv host c).mpr ⟨e, hboot, ?_, ?_⟩
  · unfold Host.answer
    rw [hgranted, h]
  · unfold spawned
    rw [hgranted, h]

/-! ## The first stage and a reset -/

variable {hw tv c}

theorem reset_journal {es : List JournalEntry} {seed : UInt32} {d : Console σ ι}
    (h : reset hw tv { c with journal := es } = .ok seed d) (es' : List JournalEntry) :
    ∃ said, reset hw tv { c with journal := es' } = .ok seed { d with journal := said } := by
  have hsaid (es : List JournalEntry) : reset hw tv { c with journal := es } =
      prefacedResult es (reset hw tv { c with journal := [] }) := by
    rw [← onlyAppends_reset hw tv es { c with journal := [] }]
    simp only [prefaced, List.append_nil]
  rw [hsaid es] at h
  rw [hsaid es']
  cases hsilent : reset hw tv { c with journal := [] } with
  | error e silent => rw [hsilent] at h; cases h
  | ok seed' silent =>
    rw [hsilent] at h
    cases h
    exact ⟨es' ++ silent.journal, rfl⟩

theorem noted_eq (c : Console σ ι) : c.noted = { c with journal := c.noted.journal } := by
  unfold noted
  split <;> rfl

theorem Genuine.noted (h : c.Genuine hw) : c.noted.Genuine hw := by
  rw [noted_eq]
  exact h.of_tasks rfl rfl

theorem reset_noted {seed : UInt32} {d : Console σ ι} (h : reset hw tv c = .ok seed d) :
    ∃ said, reset hw tv c.noted = .ok seed { d with journal := said } := by
  have h : reset hw tv { c with journal := c.journal } = .ok seed d := h
  rw [noted_eq]
  exact reset_journal h _

theorem reset_of_noted {seed : UInt32} {d : Console σ ι} (h : reset hw tv c.noted = .ok seed d) :
    ∃ said, reset hw tv c = .ok seed { d with journal := said } := by
  rw [noted_eq] at h
  exact reset_journal h c.journal

theorem bootUp_ok_iff {e : Console σ ι} :
    bootUp hw tv c = .ok () e ↔
      ∃ seed d, reset hw tv c = .ok seed d ∧ call hw.init (d.setPowered true) = .ok () e := by
  unfold bootUp
  rw [bind_ok_iff]
  constructor
  · rintro ⟨seed, d, hreset, h⟩
    rw [bind_of_ok (modify_apply _ _)] at h
    exact ⟨seed, d, hreset, h⟩
  · rintro ⟨seed, d, hreset, h⟩
    refine ⟨seed, d, hreset, ?_⟩
    rw [bind_of_ok (modify_apply _ _)]
    exact h

theorem endState_bootUp {I : Console σ ι → Prop} (hreset : I (endState (reset hw tv c)))
    (hon : ∀ d, I d → I (d.setPowered true)) (hinit : Keeps I (call hw.init)) :
    I (endState (bootUp hw tv c)) := by
  have hkeeps (_ : UInt32) :
      Keeps I (do modify (setPowered true); call hw.init : Action σ ι Unit) :=
    Keeps.bind hon fun _ => hinit
  exact Keeps.after hkeeps hreset

theorem idle_of_reset {seed : UInt32} {d : Console σ ι} (h : reset hw tv c = .ok seed d) :
    d.Idle := by
  have hidle := idle_reset hw c tv
  rwa [h] at hidle

theorem off_of_reset (hhw : hw.KeepsOff) (hgenuine : c.Genuine hw) {seed : UInt32}
    {d : Console σ ι} (h : reset hw tv c = .ok seed d) : d.powered = false := by
  have hoff := off_reset hhw hgenuine tv
  rwa [h] at hoff

theorem idle_of_bootUp {e : Console σ ι} (h : bootUp hw tv c = .ok () e) : e.Idle := by
  obtain ⟨seed, d, hreset, hinit⟩ := bootUp_ok_iff.mp h
  have hidle : d.Idle := idle_of_reset hreset
  exact (keeps_idle_call hw.init).of_ok (s := d.setPowered true) hidle hinit

/-! ## Before the first thread is asked for -/

variable {d : Console σ ι}

/-- `e` is as the reset has left `d`, but its power is on and the hardware has seen one `init`. -/
structure Prepared (hw : Hardware σ ι) (d e : Console σ ι) : Prop where
  idle : e.Idle
  settings : e.settings = d.settings
  machine : e.machine = d.machine.setPowered true
  memory : ∀ a, hw.readByte e.rig.hardware a = hw.readByte d.rig.hardware a
  init : (endState (hw.init ⟨d.rig.hardware, d.machine.registers, true⟩)).hardware =
    e.rig.hardware

theorem exists_prepared (hinit : hw.InitSparesMachine) {seed : UInt32}
    (hreset : reset hw tv c = .ok seed d) :
    ∃ e, bootUp hw tv c.noted = .ok () e ∧ Prepared hw d e := by
  have hidle := idle_of_reset hreset
  obtain ⟨said, hnoted⟩ := reset_noted hreset
  obtain ⟨⟨hardware, ⟨registers, powered, cycles, statistics⟩⟩, settings, p, s, journal, now,
    lastTurns⟩ := d
  obtain ⟨hardware', hcall, hmemory⟩ := hinit ⟨hardware, registers, true⟩
  refine ⟨⟨⟨hardware', ⟨registers, true, cycles, statistics⟩⟩, settings, p, s, said, now, lastTurns⟩,
    ?_, ?_⟩
  · refine bootUp_ok_iff.mpr ⟨seed, _, hnoted, ?_⟩
    simp only [setPowered, onMachine, Machine.setPowered, call, Rig.call, hcall]
  · exact ⟨hidle, rfl, rfl, hmemory, congrArg (fun r => (endState r).hardware) hcall⟩

theorem Prepared.machine_off {e : Console σ ι} (h : Prepared hw d e) (hoff : d.powered = false) :
    (e.setPowered false).machine = d.machine := by
  have hmachine : (e.setPowered false).machine = d.machine.setPowered false := by
    change e.machine.setPowered false = _
    rw [h.machine]
    rfl
  have hoff : d.machine.powered = false := hoff
  rw [hmachine, Machine.setPowered, ← hoff]

theorem settings_of_reset {seed : UInt32} (hreset : reset hw tv c = .ok seed d) :
    d.settings = c.settings := by
  have hcall (hook : Hook σ Unit) :
      Keeps (fun x : Console σ ι => x.settings = c.settings) (call hook) := by
    intro x hx
    simp only [call]
    cases x.rig.call hook <;> exact hx
  have hend := endState_reset hw tv c (I := fun x => x.settings = c.settings)
    (settings_shutdown hw c) (hcall _) (hcall _) fun _ _ _ hx => hx
  rwa [hreset] at hend

theorem scanlineTask_withHeadStart (hidle : c.Idle) (host : Host) :
    (c.withHeadStart hw host).scanlineTask = none := by
  have hsome := (sameSession_turns hw c.startProcessor host.firstTurns).scanlines
  have hnone : c.startProcessor.scanlineTask = none := hidle.2
  rw [hnone] at hsome
  exact Option.isNone_iff_eq_none.mp (Option.isSome_eq_false_iff.mp hsome)

theorem settings_spawned (hw : Hardware σ ι) (host : Host) (e : Console σ ι) :
    (e.spawned hw host).settings = e.settings := by
  have hhead : (e.withHeadStart hw host).settings = e.settings :=
    (sameSession_turns hw e.startProcessor host.firstTurns).settings
  unfold spawned
  split
  · rfl
  · exact (settings_shutdown hw _).trans hhead
  · exact hhead

end Console

end ConsoleCore
