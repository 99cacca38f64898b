import ConsoleCore.Proofs.Console.Journal

/-!
# The lifecycle of a console

Which tasks a console holds follows from how the last power on, reset or shutdown went, in whatever
order they are called and whatever the tasks did in between. Without a session nothing moves.
-/

namespace ConsoleCore

variable {σ ι : Type}

/-! ## Commands -/

/-- The owner calls the console, a holder of the machine sets the flag, and the host gives a task a
turn, lets time pass, or settles what it does while tasks are waited for. -/
inductive Command where
  | reset (tv : TvStandard)
  | powerOn (tv : TvStandard) (host : Host)
  | shutdown
  | drop
  | setPowered (on : Bool)
  | turn (t : Turn)
  | pass (nanoseconds : Nat)
  | plan (lastTurns : List Turn)

inductive Outcome where
  | done
  | refused (e : SpawnFailure)
  | faulted (e : Fault)

namespace Command

/-- A drop is a shutdown that no other call of the owner follows. -/
def perform (hw : Hardware σ ι) (c : Console σ ι) : Command → Outcome × Console σ ι
  | reset tv =>
    match Console.reset hw tv c with
    | .ok _ d => (.done, d)
    | .error e d => (.faulted e, d)
  | powerOn tv host =>
    match Console.powerOn hw tv host c with
    | .ok (.ok _) d => (.done, d)
    | .ok (.error e) d => (.refused e, d)
    | .error e d => (.faulted e, d)
  | shutdown | drop => (.done, c.shutdown hw)
  | setPowered on => (.done, c.setPowered on)
  | turn t => (.done, c.turn hw t)
  | pass nanoseconds => (.done, c.pass nanoseconds)
  | plan lastTurns => (.done, c.plan lastTurns)

theorem perform_reset (hw : Hardware σ ι) (c : Console σ ι) (tv : TvStandard) :
    ((reset tv).perform hw c).2 = endState (Console.reset hw tv c) := by
  simp only [perform]
  cases Console.reset hw tv c <;> rfl

theorem perform_powerOn (hw : Hardware σ ι) (c : Console σ ι) (tv : TvStandard) (host : Host) :
    ((powerOn tv host).perform hw c).2 = endState (Console.powerOn hw tv host c) := by
  simp only [perform]
  rcases Console.powerOn hw tv host c with ⟨_ | _, d⟩ | ⟨e, d⟩ <;> rfl

def isPowerOn : Command → Bool
  | powerOn .. => true
  | _ => false

def switchesOff : Command → Outcome → Bool
  | reset _, _ | shutdown, _ | drop, _ | powerOn .., .refused _ => true
  | _, _ => false

def sessionAfter (session : Bool) : Command → Outcome → Bool
  | powerOn .., .done => true
  | powerOn .., _ | reset _, _ | shutdown, _ | drop, _ => false
  | setPowered _, _ | turn _, _ | pass _, _ | plan _, _ => session

end Command

namespace Console

def after (hw : Hardware σ ι) (c : Console σ ι) (commands : List Command) : Console σ ι :=
  commands.foldl (fun c command => (command.perform hw c).2) c

/-- Keeps track of whether there is a session, going by how the commands went. -/
def tracked (hw : Hardware σ ι) : Bool × Console σ ι → List Command → Bool × Console σ ι :=
  List.foldl fun (session, c) command =>
    let (outcome, d) := command.perform hw c
    (command.sessionAfter session outcome, d)

/-! ## Without tasks -/

variable (hw : Hardware σ ι) (c : Console σ ι)

theorem keeps_idle_call {α : Type} (h : Hook σ α) :
    Keeps (Idle : Console σ ι → Prop) (call h) := by
  intro c hc
  simp only [call]
  cases c.rig.call h <;> exact hc

theorem idle_reset (tv : TvStandard) : (endState (reset hw tv c)).Idle :=
  endState_reset hw tv c (idle_shutdown hw c) (keeps_idle_call _) (keeps_idle_call _)
    fun _ _ _ hd => hd

/-! ## Switching on -/

inductive PowerOnResult (hw : Hardware σ ι) (host : Host) :
    EStateM.Result Fault (Console σ ι) (Except SpawnFailure Unit) → Prop where
  | faulted {e : Fault} {d : Console σ ι} (idle : d.Idle) : PowerOnResult hw host (.error e d)
  | refused {e : SpawnFailure} {d : Console σ ι} (idle : d.Idle)
      (off : hw.KeepsOff → d.powered = false) : PowerOnResult hw host (.ok (.error e) d)
  | started {d : Console σ ι} (idle : d.Idle) :
      PowerOnResult hw host
        (.ok (.ok ()) ((d.startProcessor).turns hw host.firstTurns).startScanlines)

theorem spawnTasks_spec {d : Console σ ι} (host : Host) (hidle : d.Idle) :
    PowerOnResult hw host (spawnTasks hw host d) := by
  unfold spawnTasks
  cases host.processorRefusal with
  | some cause => exact .refused hidle fun _ => rfl
  | none =>
    unfold spawnScanlines
    cases host.scanlineRefusal with
    | some cause =>
      have hgenuine := (hidle.genuine_startProcessor hw).turns host.firstTurns
      exact .refused (idle_shutdown hw _) fun hhw => off_shutdown hhw hgenuine
    | none => exact .started hidle

theorem powerOn_spec (tv : TvStandard) (host : Host) :
    PowerOnResult hw host (powerOn hw tv host c) := by
  unfold powerOn
  rw [bind_of_ok (modify_apply _ _)]
  generalize (if c.powered = true then c.say .caller .restarting else c) = c
  have hreset := idle_reset hw c tv
  cases h : reset hw tv c with
  | error e d =>
    rw [h] at hreset
    rw [bind_of_error h]
    exact .faulted hreset
  | ok seed d =>
    rw [h] at hreset
    rw [bind_of_ok h, bind_of_ok (modify_apply _ _)]
    have hinit := keeps_idle_call hw.init (d.setPowered true) hreset
    cases h' : call hw.init (d.setPowered true) with
    | error e d' =>
      rw [h'] at hinit
      rw [bind_of_error h']
      exact .faulted hinit
    | ok _ d' =>
      rw [h'] at hinit
      rw [bind_of_ok h']
      exact spawnTasks_spec hw host hinit

/-! ## One command -/

variable {c}

theorem idle_perform (command : Command)
    (hoff : command.switchesOff (command.perform hw c).1 = true) :
    (command.perform hw c).2.Idle := by
  cases command with
  | reset tv =>
    rw [Command.perform_reset]
    exact idle_reset hw c tv
  | powerOn tv host =>
    have hspec := powerOn_spec hw c tv host
    simp only [Command.perform] at hoff ⊢
    generalize powerOn hw tv host c = r at hspec hoff
    cases hspec with
    | faulted => cases hoff
    | refused idle => exact idle
    | started => cases hoff
  | shutdown | drop => exact idle_shutdown hw c
  | setPowered | turn | pass | plan => cases hoff

variable {hw} in
theorem off_perform (hhw : hw.KeepsOff) (h : c.Genuine hw) (command : Command)
    (hoff : command.switchesOff (command.perform hw c).1 = true) :
    (command.perform hw c).2.powered = false := by
  cases command with
  | reset tv =>
    rw [Command.perform_reset]
    exact off_reset hhw h tv
  | powerOn tv host =>
    have hspec := powerOn_spec hw c tv host
    simp only [Command.perform] at hoff ⊢
    generalize powerOn hw tv host c = r at hspec hoff
    cases hspec with
    | faulted => cases hoff
    | refused _ off => exact off hhw
    | started => cases hoff
  | shutdown | drop => exact off_shutdown hhw h
  | setPowered | turn | pass | plan => cases hoff

variable {hw} in
theorem Genuine.perform (h : c.Genuine hw) (command : Command) :
    (command.perform hw c).2.Genuine hw := by
  cases command with
  | reset tv => exact (idle_perform hw (.reset tv) rfl).genuine hw
  | powerOn tv host =>
    have hspec := powerOn_spec hw c tv host
    simp only [Command.perform]
    generalize powerOn hw tv host c = r at hspec
    cases hspec with
    | faulted idle | refused idle => exact idle.genuine hw
    | started idle =>
      refine ⟨((idle.genuine_startProcessor hw).turns host.firstTurns).processor, ?_⟩
      rintro _ _ _ ⟨⟩
  | shutdown | drop => exact (idle_shutdown hw c).genuine hw
  | setPowered | pass | plan => exact h.of_tasks rfl rfl
  | turn t => exact h.turn t

variable {hw} in
theorem Genuine.after (h : c.Genuine hw) (commands : List Command) :
    (c.after hw commands).Genuine hw := by
  induction commands generalizing c with
  | nil => exact h
  | cons command commands ih => exact ih (h.perform command)

theorem Idle.perform (hidle : c.Idle) {command : Command} (hcommand : command.isPowerOn = false) :
    (command.perform hw c).2.Idle := by
  cases command with
  | reset tv => exact idle_perform hw (.reset tv) rfl
  | powerOn => cases hcommand
  | shutdown | drop => exact idle_shutdown hw c
  | setPowered | pass | plan => exact hidle
  | turn t =>
    have hturn : c.turn hw t = c := hidle.turn hw t
    simp only [Command.perform, hturn]
    exact hidle

theorem Idle.after (hidle : c.Idle) {commands : List Command}
    (hcommands : ∀ command ∈ commands, command.isPowerOn = false) :
    (c.after hw commands).Idle := by
  induction commands generalizing c with
  | nil => exact hidle
  | cons command commands ih =>
    rw [List.forall_mem_cons] at hcommands
    exact ih (hidle.perform hw hcommands.1) hcommands.2

/-! ## Whole runs -/

/-- The console holds both tasks during a session, and none otherwise. -/
def HoldsSession (c : Console σ ι) (session : Bool) : Prop :=
  c.processorTask.isSome = session ∧ c.scanlineTask.isSome = session

theorem Idle.holdsSession (hidle : c.Idle) : c.HoldsSession false := by
  unfold HoldsSession
  rw [hidle.1, hidle.2]
  exact ⟨rfl, rfl⟩

theorem holdsSession_started (host : Host) (d : Console σ ι) :
    ((d.startProcessor).turns hw host.firstTurns).startScanlines.HoldsSession true :=
  ⟨(sameSession_turns hw d.startProcessor host.firstTurns).processor, rfl⟩

theorem HoldsSession.perform {session : Bool} (h : c.HoldsSession session) (command : Command) :
    (command.perform hw c).2.HoldsSession
      (command.sessionAfter session (command.perform hw c).1) := by
  cases command with
  | reset tv => exact (idle_perform hw (.reset tv) rfl).holdsSession
  | powerOn tv host =>
    have hspec := powerOn_spec hw c tv host
    simp only [Command.perform]
    generalize powerOn hw tv host c = r at hspec
    cases hspec with
    | faulted idle | refused idle => exact idle.holdsSession
    | started => exact holdsSession_started hw host _
  | shutdown | drop => exact (idle_shutdown hw c).holdsSession
  | setPowered | pass | plan => exact h
  | turn t =>
    have hsame := sameSession_turn hw c t
    exact ⟨hsame.processor.trans h.1, hsame.scanlines.trans h.2⟩

theorem tracked_eq (session : Bool) (commands : List Command) :
    (tracked hw (session, c) commands).2 = c.after hw commands := by
  induction commands generalizing session c with
  | nil => rfl
  | cons command commands ih => exact ih _

theorem HoldsSession.tracked {session : Bool} (h : c.HoldsSession session)
    (commands : List Command) :
    (tracked hw (session, c) commands).2.HoldsSession (tracked hw (session, c) commands).1 := by
  induction commands generalizing session c with
  | nil => exact h
  | cons command commands ih => exact ih (h.perform hw command)

/-! ## Restarting -/

variable (c)

def restartingNote : List JournalEntry :=
  if c.powered then [{ speaker := .caller, message := .restarting }] else []

def bringUp (tv : TvStandard) (host : Host) : Action σ ι (Except SpawnFailure Unit) := do
  let _ ← reset hw tv
  modify (setPowered true)
  call hw.init
  spawnTasks hw host

theorem onlyAppends_bringUp (tv : TvStandard) (host : Host) : OnlyAppends (bringUp hw tv host) :=
  (onlyAppends_reset hw tv).bind fun _ => (OnlyAppends.modify fun _ _ => rfl).bind fun _ =>
    (onlyAppends_call _).bind fun _ => onlyAppends_spawnTasks hw host

theorem reset_shutdown (hoff : (c.shutdown hw).powered = false) (tv : TvStandard) :
    reset hw tv (c.shutdown hw) = reset hw tv c := by
  rw [reset_eq, reset_eq, shutdown_shutdown hw hoff]

theorem bringUp_shutdown (hoff : (c.shutdown hw).powered = false) (tv : TvStandard) (host : Host) :
    bringUp hw tv host (c.shutdown hw) = bringUp hw tv host c := by
  simp only [bringUp, bind, EStateM.bind, reset_shutdown hw c hoff]

theorem powerOn_eq (tv : TvStandard) (host : Host) :
    powerOn hw tv host c =
      prefacedResult (c.journal ++ c.restartingNote)
        (bringUp hw tv host { c with journal := [] }) := by
  have hsaid : (if c.powered then c.say .caller .restarting else c) =
      prefaced (c.journal ++ c.restartingNote) { c with journal := [] } := by
    unfold restartingNote
    split <;> simp only [say, prefaced, List.append_nil]
  change bringUp hw tv host (if c.powered then c.say .caller .restarting else c) = _
  rw [hsaid]
  exact onlyAppends_bringUp hw tv host _ _

theorem powerOn_shutdown (hoff : (c.shutdown hw).powered = false) (tv : TvStandard) (host : Host) :
    powerOn hw tv host (c.shutdown hw) =
      prefacedResult c.journal (bringUp hw tv host { c with journal := [] }) := by
  have hnote : ¬ (c.shutdown hw).powered = true := by
    rw [hoff]
    exact Bool.false_ne_true
  have hsaid : prefaced c.journal { c with journal := [] } = c := by
    unfold prefaced
    rw [List.append_nil]
  change bringUp hw tv host (if (c.shutdown hw).powered then _ else _) = _
  rw [if_neg hnote, bringUp_shutdown hw c hoff, ← onlyAppends_bringUp, hsaid]

/-! ## The lifecycle -/

/-- Which tasks a console holds follows from the commands alone. Where the hardware keeps the power
off, switching off leaves none behind, and a power on does the same as after a shutdown. -/
theorem tasks_follow_commands (hw : Hardware σ ι) (s : σ) (settings : Settings)
    (history : List Command) :
    let session := (tracked hw (false, ofHardware s settings) history).1
    let c := (tracked hw (false, ofHardware s settings) history).2
    c.HoldsSession session ∧ c.Genuine hw ∧
    (∀ command : Command, command.switchesOff (command.perform hw c).1 = true →
      let d := (command.perform hw c).2
      d.Idle ∧ (hw.KeepsOff → d.powered = false) ∧
      ∀ rest, (∀ command ∈ rest, command.isPowerOn = false) →
        (d.after hw rest).Idle ∧ ∀ t, (d.after hw rest).turn hw t = d.after hw rest) ∧
    (∀ tv host d, powerOn hw tv host c = .ok (.ok ()) d →
      d.HoldsSession true ∧
      ∃ e, e.Idle ∧ d = ((startProcessor e).turns hw host.firstTurns).startScanlines) ∧
    ∀ d : Console σ ι,
      (∃ ms, d.shutdown hw =
        sayAll .caller ms { d.joined hw with processorTask := none, scanlineTask := none }) ∧
      (hw.KeepsOff → d.Genuine hw →
        Task.turnsLeft (d.joined hw).processorTask = 0 ∧
        Task.turnsLeft (d.joined hw).scanlineTask = 0 ∧
        (d.shutdown hw).shutdown hw = d.shutdown hw ∧
        ∀ tv host, ∃ r,
          powerOn hw tv host d = prefacedResult (d.journal ++ d.restartingNote) r ∧
          powerOn hw tv host (d.shutdown hw) = prefacedResult d.journal r) := by
  intro session c
  have hstart : (ofHardware s settings : Console σ ι).Idle := ⟨rfl, rfl⟩
  have hgenuine : c.Genuine hw := by
    change (tracked hw (false, ofHardware s settings) history).2.Genuine hw
    rw [tracked_eq]
    exact (hstart.genuine hw).after history
  refine ⟨hstart.holdsSession.tracked hw history, hgenuine, ?_, ?_, ?_⟩
  · intro command hcommand d
    have hidle : d.Idle := idle_perform hw command hcommand
    refine ⟨hidle, fun hhw => off_perform hhw hgenuine command hcommand, fun rest hrest => ?_⟩
    have hafter := hidle.after hw hrest
    exact ⟨hafter, hafter.turn hw⟩
  · intro tv host d hd
    have hspec := powerOn_spec hw c tv host
    rw [hd] at hspec
    cases hspec with
    -- No other ending answers `ok`.
    | started idle => exact ⟨holdsSession_started hw host _, _, idle, rfl⟩
  · intro d
    refine ⟨shutdown_eq hw d, fun hhw hd => ?_⟩
    have hoff := off_shutdown hhw hd
    obtain ⟨hprocessor, hscanlines⟩ := ended_joined hhw hd
    refine ⟨hprocessor, hscanlines, shutdown_shutdown hw hoff, fun tv host => ?_⟩
    exact ⟨_, powerOn_eq hw d tv host, powerOn_shutdown hw d hoff tv host⟩

theorem powerOn_testBoard (tv : TvStandard) (c : Console TestBoard TestBoard.Instruction) :
    ∃ d, powerOn TestBoard.hardware tv {} c = .ok (.ok ()) d := by
  have hcop0 : TestBoard.hardware.powerOnCop0.Writes [] := fun b => ⟨_, b.powered, rfl⟩
  have hcop1 : TestBoard.hardware.powerOnCop1.Writes [] := fun b => ⟨_, b.powered, rfl⟩
  have hinit (d : Console TestBoard TestBoard.Instruction) :
      ∃ d', call TestBoard.hardware.init d = .ok () d' := ⟨_, rfl⟩
  unfold powerOn
  rw [bind_of_ok (modify_apply _ _)]
  obtain ⟨d, hreset, -⟩ := reset_writes tv _ hcop0 hcop1
  obtain ⟨d', hinit⟩ := hinit (d.setPowered true)
  rw [bind_of_ok hreset, bind_of_ok (modify_apply _ _), bind_of_ok hinit]
  exact ⟨_, rfl⟩

theorem tasks_of_testBoard :
    let hw := TestBoard.hardware
    let c := (tracked hw (false, ofHardware {} {})
      [.powerOn .ntsc {}, .turn .processor, .turn .scanlines]).2
    let d := (c.shutdown hw).after hw [.setPowered true, .reset .pal, .turn .processor]
    c.HoldsSession true ∧ (c.shutdown hw).powered = false ∧ d.Idle ∧ d.turn hw .scanlines = d ∧
      (c.shutdown hw).shutdown hw = c.shutdown hw ∧
      ∃ e, powerOn hw .pal {} c = .ok (.ok ()) e ∧ e.HoldsSession true := by
  have hall := tasks_follow_commands TestBoard.hardware {} {}
    [.powerOn .ntsc {}, .turn .processor, .turn .scanlines]
  have hgranted : (tracked TestBoard.hardware (false, ofHardware {} {})
      [.powerOn .ntsc {}, .turn .processor, .turn .scanlines]).1 = true := by
    obtain ⟨e, he⟩ := powerOn_testBoard .ntsc (ofHardware {} {})
    simp only [tracked, List.foldl, Command.perform, he, Command.sessionAfter]
  -- The console is held abstract, so that its run is not computed.
  dsimp only
  generalize tracked TestBoard.hardware _ _ = x at hall hgranted ⊢
  obtain ⟨hsession, hgenuine, hoff, hstarted, hany⟩ := hall
  rw [hgranted] at hsession
  obtain ⟨-, hpower, hrest⟩ := hoff .shutdown rfl
  obtain ⟨hidle, hturn⟩ := hrest [.setPowered true, .reset .pal, .turn .processor] (by decide)
  obtain ⟨e, he⟩ := powerOn_testBoard .pal x.2
  obtain ⟨-, -, htwice, -⟩ := (hany x.2).2 testBoard_keepsOff hgenuine
  exact ⟨hsession, hpower testBoard_keepsOff, hidle, hturn .scanlines, htwice, e, he,
    (hstarted .pal {} e he).1⟩

def switchingBoard : Hardware TestBoard TestBoard.Instruction :=
  { TestBoard.hardware with powerOnCop1 := modify fun b => { b with powered := true } }

/-- A reset does not switch it off again. -/
theorem on_reset_switchingBoard (tv : TvStandard) (c : Console TestBoard TestBoard.Instruction) :
    (endState (reset switchingBoard tv c)).powered = true := by
  rw [reset_eq]
  rfl

end Console

end ConsoleCore
