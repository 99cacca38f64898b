import ConsoleCore.Proofs.Console.PowerOn
import ConsoleCore.Proofs.Processor.Launch

/-!
# The time that is measured

The processor's task starts the stopwatch and stops it when it finds the power off. A task that
faults does neither, and nobody else stops the stopwatch for it.
-/

namespace ConsoleCore

variable {σ ι α β : Type}

/-! ## Tasks at work -/

def Task.inLoop : Option (Task σ α β) → Bool
  | some (.ready _) | some (.held ..) => true
  | _ => false

theorem Task.turnsLeft_eq_zero_iff {t : Option (Task σ α β)} :
    turnsLeft t = 0 ↔ inLoop t = false := by
  rcases t with _ | ⟨_ | _ | _ | _⟩ <;> simp [turnsLeft, inLoop]

theorem inLoop_or_hasFailed_after
    (r : EStateM.Result Fault (Processor σ) (Option (Processor.InFlight ι × Hold σ))) :
    (Task.inLoop (some (Console.processorTaskAfter r)) ||
      Task.hasFailed (some (Console.processorTaskAfter r))) = true := by
  rcases r with ⟨_ | ⟨f, hold⟩, p⟩ | ⟨e, p⟩ <;> rfl

/-! ## Commands and their time -/

namespace Command

def time : Command → Nat
  | pass nanoseconds => nanoseconds
  | _ => 0

end Command

namespace Console

variable (hw : Hardware σ ι)

/-- Where a refusal of the second thread has the processor's task waited for. -/
def spawnJoins (host : Host) (c : Console σ ι) : List (Console σ ι) :=
  match host.processorRefusal, host.scanlineRefusal with
  | none, some _ => [(c.withHeadStart hw host).joined hw]
  | _, _ => []

def powerOnJoins (tv : TvStandard) (host : Host) (c : Console σ ι) : List (Console σ ι) :=
  c.noted.joined hw ::
    match bootUp hw tv c.noted with
    | .ok _ d => d.spawnJoins hw host
    | .error _ _ => []

end Console

/-- The console whenever the command has waited for both tasks, right before it drops them. -/
def Command.joins (hw : Hardware σ ι) (c : Console σ ι) : Command → List (Console σ ι)
  | reset _ | shutdown | drop => [c.joined hw]
  | powerOn tv host => c.powerOnJoins hw tv host
  | setPowered _ | turn _ | pass _ | plan _ => []

namespace Console

variable (hw : Hardware σ ι)

def joins : Console σ ι → List Command → List (Console σ ι)
  | _, [] => []
  | c, command :: commands => command.joins hw c ++ joins (command.perform hw c).2 commands

def processorTasks (joins : List (Console σ ι)) : List (ProcessorTask σ ι) :=
  joins.filterMap (·.processorTask)

/-- The processor's tasks during the commands, as they were when they were dropped, or as the last
one is afterwards. -/
def tasksDuring (c : Console σ ι) (commands : List Command) : List (ProcessorTask σ ι) :=
  processorTasks (c.joins hw commands) ++ (c.after hw commands).processorTask.toList

def timeWhile (p : Console σ ι → Bool) : Console σ ι → List Command → Nat
  | _, [] => 0
  | c, command :: commands =>
    (if p c then command.time else 0) + timeWhile p (command.perform hw c).2 commands

def stopwatch (c : Console σ ι) : Stopwatch := c.machine.statistics.stopwatch

def measured (c : Console σ ι) : Nat := c.stopwatch.elapsed c.now

end Console

/-! ## Who leaves the stopwatch alone -/

theorem Rig.stopwatch_call (h : Hook σ α) (r : Rig σ) :
    (endState (r.call h)).machine.statistics.stopwatch = r.machine.statistics.stopwatch := by
  rw [statistics_call]

namespace Processor

variable {hw : Hardware σ ι} {w : Stopwatch}

def HasStopwatch (w : Stopwatch) (p : Processor σ) : Prop := p.machine.statistics.stopwatch = w

theorem keeps_stopwatch_call (h : Hook σ α) : Keeps (HasStopwatch w) (call h : Action σ α) := by
  intro p hp
  unfold HasStopwatch
  rw [toRig_call, Rig.stopwatch_call]
  exact hp

theorem keeps_stopwatch_retire (f : InFlight ι) : Keeps (HasStopwatch w) (retire hw f) := by
  intro p hp
  rw [retire_eq]
  split <;> exact hp

theorem stagesKeep_stopwatch (hw : Hardware σ ι) (w : Stopwatch) :
    StagesKeep hw (HasStopwatch w) where
  fetch _ := keeps_stopwatch_call _
  poll _ := keeps_stopwatch_call _
  clearZero _ hp := hp
  startOver p hp := by
    unfold startOver
    split <;> exact hp
  decode _ _ := keeps_stopwatch_call _
  execute _ := keeps_stopwatch_call _

end Processor

/-! ## One turn -/

namespace Console

variable {hw : Hardware σ ι} {ended : List (ProcessorTask σ ι)} {m : Nat} {c d : Console σ ι}

/-- The stopwatch shows `m`, and it goes if a processor's task is at work or the latest one failed.
The tasks before the present one are `ended`. -/
structure Timed (ended : List (ProcessorTask σ ι)) (m : Nat) (c : Console σ ι) : Prop where
  measured : c.measured = m
  going : c.stopwatch.startedAt.isSome =
    (Task.inLoop c.processorTask || Task.hasFailed (c.processorTask.or ended.getLast?))
  past : ∀ t, c.stopwatch.startedAt = some t → t ≤ c.now

theorem Timed.of_stopwatch (h : c.Timed ended m) (hstopwatch : d.stopwatch = c.stopwatch)
    (hnow : d.now = c.now)
    (hgoing : c.stopwatch.startedAt.isSome =
      (Task.inLoop d.processorTask || Task.hasFailed (d.processorTask.or ended.getLast?))) :
    d.Timed ended m := by
  constructor
  case measured =>
    unfold Console.measured
    rw [hstopwatch, hnow]
    exact h.measured
  case going =>
    rw [hstopwatch]
    exact hgoing
  case past =>
    rw [hstopwatch, hnow]
    exact h.past

theorem Timed.congr (h : c.Timed ended m) (hstopwatch : d.stopwatch = c.stopwatch)
    (htask : d.processorTask = c.processorTask) (hnow : d.now = c.now) : d.Timed ended m :=
  h.of_stopwatch hstopwatch hnow (by rw [htask]; exact h.going)

theorem Timed.runProcessor (h : c.Timed ended m)
    {act : Processor.Action σ (Option (Processor.InFlight ι × Hold σ))}
    (hact : ∀ w, Keeps (Processor.HasStopwatch w) act) (hloop : Task.inLoop c.processorTask = true)
    (accumulator : UInt64) : (c.runProcessor act accumulator).Timed ended m := by
  have hgoing := h.going
  rw [hloop, Bool.true_or] at hgoing
  rw [runProcessor_eq]
  apply h.of_stopwatch
  · exact hact _ ⟨c.rig, accumulator⟩ rfl
  · rfl
  · rw [hgoing, Option.some_or, inLoop_or_hasFailed_after]

theorem Timed.endProcessor (h : c.Timed ended m) : c.endProcessor.Timed ended m := by
  have hstopped : c.endProcessor.stopwatch.startedAt = none := Stopwatch.startedAt_stop _ _
  constructor
  case measured => exact (Stopwatch.elapsed_stop _ _ _).trans h.measured
  case going =>
    rw [hstopped]
    rfl
  case past =>
    intro t ht
    cases hstopped.symm.trans ht

variable (hw)

theorem Timed.processorTurn (h : c.Timed ended m) : (c.processorTurn hw).Timed ended m := by
  have hturn := processorTurn_spec hw c
  generalize c.processorTurn hw = d at hturn
  cases hturn with
  | nothing => exact h
  | round ready =>
    refine h.runProcessor (fun w => ?_) (by rw [ready]; rfl) _
    exact (Processor.stagesKeep_stopwatch hw w).advance
      (fun _ => Processor.keeps_stopwatch_call _) Processor.keeps_stopwatch_retire
  | rest held =>
    refine h.runProcessor (fun w => ?_) (by rw [held]; rfl) _
    exact Processor.keeps_resume (Processor.keeps_stopwatch_call _)
      Processor.keeps_stopwatch_retire _
  | finish => exact h.endProcessor

theorem Timed.scanlineTurn (h : c.Timed ended m) : (c.scanlineTurn hw).Timed ended m := by
  have hturn := scanlineTurn_spec hw c
  have hcall {α : Type} (hook : Hook σ α) :
      Keeps (fun r : Rig σ => r.machine.statistics.stopwatch = c.stopwatch) (Rig.call hook) :=
    fun r hr => (Rig.stopwatch_call hook r).trans hr
  refine h.congr ?_ hturn.processorTask_eq ?_
  · exact hturn.rig_keeps (J := fun r => r.machine.statistics.stopwatch = c.stopwatch)
      (fun _ => hcall _) (fun _ => hcall _) (fun _ _ _ _ => hcall _) rfl
  · generalize c.scanlineTurn hw = d at hturn
    cases hturn with
    | nothing | finish => rfl
    | round | rest => rw [runScanlines_eq]

/-! ## One command -/

theorem Timed.turns (h : c.Timed ended m) (schedule : List Turn) :
    (c.turns hw schedule).Timed ended m := by
  refine turns_keeps (fun d t hd => ?_) h schedule
  cases t with
  | processor => exact hd.processorTurn hw
  | scanlines => exact hd.scanlineTurn hw

theorem Timed.joined (h : c.Timed ended m) : (c.joined hw).Timed ended m :=
  (h.congr (d := c.setPowered false) rfl rfl rfl).turns hw c.joiningTurns

theorem getLast?_append_processorTasks (ended : List (ProcessorTask σ ι)) (d : Console σ ι) :
    (ended ++ processorTasks [d]).getLast? = d.processorTask.or ended.getLast? := by
  unfold processorTasks
  rw [List.getLast?_append]
  cases h : d.processorTask <;> simp [h]

theorem keeps_timed_call {α : Type} (hook : Hook σ α) :
    Keeps (fun c : Console σ ι => c.Timed ended m) (call hook) := by
  intro c hc
  have hnow : (endState (call hook c)).now = c.now := by
    simp only [call]
    cases c.rig.call hook <;> rfl
  refine hc.congr ?_ (processorTask_call hook c) hnow
  unfold stopwatch machine
  rw [rig_call, Rig.stopwatch_call]

variable {hw} in
theorem inLoop_joined (hoffs : hw.KeepsOff) (hgenuine : c.Genuine hw) :
    Task.inLoop (c.joined hw).processorTask = false :=
  Task.turnsLeft_eq_zero_iff.mp (ended_joined hoffs hgenuine).1

section

variable {hw} (hoffs : hw.KeepsOff) (hgenuine : c.Genuine hw)

include hoffs hgenuine

theorem Timed.shutdown (h : c.Timed ended m) :
    (c.shutdown hw).Timed (ended ++ processorTasks [c.joined hw]) m := by
  have hjoined := h.joined hw
  have hover := inLoop_joined hoffs hgenuine
  obtain ⟨ms, hshutdown⟩ := shutdown_eq hw c
  rw [hshutdown]
  constructor
  case measured => exact hjoined.measured
  case going =>
    have hgoing := hjoined.going
    rw [hover, Bool.false_or] at hgoing
    rw [getLast?_append_processorTasks]
    exact hgoing
  case past => exact hjoined.past

theorem Timed.reset (h : c.Timed ended m) (tv : TvStandard) :
    (endState (reset hw tv c)).Timed (ended ++ processorTasks [c.joined hw]) m :=
  endState_reset hw tv c (I := fun d => d.Timed (ended ++ processorTasks [c.joined hw]) m)
    ((h.shutdown hoffs hgenuine).congr rfl rfl rfl) (keeps_timed_call _) (keeps_timed_call _)
    fun _ _ _ hd => hd.congr rfl rfl rfl

theorem Timed.bootUp (h : c.Timed ended m) (tv : TvStandard) :
    (endState (bootUp hw tv c)).Timed (ended ++ processorTasks [c.joined hw]) m :=
  endState_bootUp (I := fun d => d.Timed (ended ++ processorTasks [c.joined hw]) m)
    (h.reset hoffs hgenuine tv) (fun _ hd => hd.congr rfl rfl rfl) (keeps_timed_call _)

end

theorem Timed.startProcessor (h : c.Timed ended m) : c.startProcessor.Timed ended m := by
  constructor
  case measured => exact (Stopwatch.elapsed_start _ _).trans h.measured
  case going => rfl
  case past =>
    intro t ht
    change some (c.stopwatch.startedAt.getD c.now) = some t at ht
    change t ≤ c.now
    cases hstarted : c.stopwatch.startedAt with
    | none =>
      rw [hstarted] at ht
      cases ht
      exact Nat.le_refl _
    | some t' =>
      rw [hstarted] at ht
      cases ht
      exact h.past _ hstarted

variable {hw} in
theorem Timed.spawned (hoffs : hw.KeepsOff) (hidle : c.Idle) (h : c.Timed ended m) (host : Host) :
    (c.spawned hw host).Timed (ended ++ processorTasks (c.spawnJoins hw host)) m := by
  have hhead : (c.withHeadStart hw host).Timed ended m := h.startProcessor.turns hw host.firstTurns
  unfold Console.spawned spawnJoins
  cases host.processorRefusal with
  | some cause =>
    rw [processorTasks, List.filterMap_nil, List.append_nil]
    exact h.congr rfl rfl rfl
  | none =>
    cases host.scanlineRefusal with
    | some cause =>
      exact hhead.shutdown hoffs ((hidle.genuine_startProcessor hw).turns host.firstTurns)
    | none =>
      rw [processorTasks, List.filterMap_nil, List.append_nil]
      exact hhead.congr rfl rfl rfl

theorem processorTasks_append (xs ys : List (Console σ ι)) :
    processorTasks (xs ++ ys) = processorTasks xs ++ processorTasks ys :=
  List.filterMap_append

theorem Timed.powerOn (hoffs : hw.KeepsOff) (hgenuine : c.Genuine hw) (h : c.Timed ended m)
    (tv : TvStandard) (host : Host) :
    (endState (powerOn hw tv host c)).Timed
      (ended ++ processorTasks (c.powerOnJoins hw tv host)) m := by
  have hnoted : c.noted.Timed ended m := by
    rw [noted_eq]
    exact h.congr rfl rfl rfl
  have hboot := hnoted.bootUp hoffs hgenuine.noted tv
  unfold powerOnJoins
  rw [powerOn_eq_bootUp]
  cases hr : Console.bootUp hw tv c.noted with
  | error e d =>
    rw [hr] at hboot
    rw [bind_of_error hr]
    exact hboot
  | ok _ d =>
    rw [hr] at hboot
    have hspawned := hboot.spawned hoffs (idle_of_bootUp hr) host
    rw [List.append_assoc, ← processorTasks_append] at hspawned
    rw [bind_of_ok hr, spawnTasks_eq]
    exact hspawned

theorem Timed.pass (h : c.Timed ended m) (n : Nat) :
    (c.pass n).Timed ended (m +
      if Task.inLoop c.processorTask || Task.hasFailed (c.processorTask.or ended.getLast?) then n
      else 0) := by
  constructor
  case measured =>
    have hadd := Stopwatch.elapsed_add h.past n
    rw [h.going] at hadd
    rw [← h.measured]
    exact hadd
  case going => exact h.going
  case past =>
    intro t ht
    exact Nat.le_add_right_of_le (h.past t ht)

theorem Timed.perform (hoffs : hw.KeepsOff) (hgenuine : c.Genuine hw) (h : c.Timed ended m)
    (command : Command) :
    (command.perform hw c).2.Timed (ended ++ processorTasks (command.joins hw c))
      (m + if Task.inLoop c.processorTask || Task.hasFailed (c.processorTask.or ended.getLast?)
        then command.time else 0) := by
  have hnil : ended ++ processorTasks [] = ended := List.append_nil ended
  have hzero : ∀ b : Bool, m + (if b then 0 else 0) = m := by simp
  cases command with
  | reset tv =>
    rw [Command.perform_reset]
    simp only [Command.joins, Command.time, hzero]
    exact h.reset hoffs hgenuine tv
  | powerOn tv host =>
    rw [Command.perform_powerOn]
    simp only [Command.joins, Command.time, hzero]
    exact h.powerOn hw hoffs hgenuine tv host
  | shutdown | drop =>
    simp only [Command.joins, Command.time, hzero]
    exact h.shutdown hoffs hgenuine
  | setPowered | plan =>
    simp only [Command.joins, Command.time, hnil, hzero]
    exact h.congr rfl rfl rfl
  | turn t =>
    simp only [Command.joins, Command.time, hnil, hzero]
    cases t with
    | processor => exact h.processorTurn hw
    | scanlines => exact h.scanlineTurn hw
  | pass n =>
    simp only [Command.joins, hnil]
    exact h.pass n

/-! ## Tasks at their end -/

variable {t : ProcessorTask σ ι}

variable {hw} in
theorem exists_joined_of_mem (hgenuine : c.Genuine hw) {command : Command}
    (h : d ∈ command.joins hw c) : ∃ e : Console σ ι, e.Genuine hw ∧ d = e.joined hw := by
  cases command with
  | reset | shutdown | drop => exact ⟨c, hgenuine, List.mem_singleton.mp h⟩
  | powerOn tv host =>
    rcases List.mem_cons.mp h with hfirst | hspawn
    · exact ⟨_, hgenuine.noted, hfirst⟩
    · split at hspawn
      · rename_i hboot
        have hstarted := (idle_of_bootUp hboot).genuine_startProcessor hw
        unfold spawnJoins at hspawn
        split at hspawn
        · exact ⟨_, hstarted.turns host.firstTurns, List.mem_singleton.mp hspawn⟩
        · cases hspawn
      · cases hspawn
  | setPowered | turn | pass | plan => cases h

variable {hw} in
theorem inLoop_of_mem_joins (hoffs : hw.KeepsOff) (hgenuine : c.Genuine hw) {command : Command}
    (h : t ∈ processorTasks (command.joins hw c)) : Task.inLoop (some t) = false := by
  obtain ⟨d, hd, ht⟩ := List.mem_filterMap.mp h
  obtain ⟨e, he, rfl⟩ := exists_joined_of_mem hgenuine hd
  rw [← ht]
  exact inLoop_joined hoffs he

theorem joins_cases (c : Console σ ι) (command : Command) :
    (∃ (d : Console σ ι) (js : List (Console σ ι)), d.processorTask = c.processorTask ∧
      command.joins hw c = d.joined hw :: js) ∨
    (command.joins hw c = [] ∧
      ((command.perform hw c).2.processorTask = c.processorTask ∨
        (command.perform hw c).2 = c.processorTurn hw)) := by
  cases command with
  | reset | shutdown | drop => exact .inl ⟨c, [], rfl, rfl⟩
  | powerOn tv host =>
    refine .inl ⟨c.noted, _, ?_, rfl⟩
    rw [noted_eq]
  | setPowered | pass | plan => exact .inr ⟨rfl, .inl rfl⟩
  | turn t =>
    cases t with
    | processor => exact .inr ⟨rfl, .inr rfl⟩
    | scanlines => exact .inr ⟨rfl, .inl (scanlineTurn_spec hw c).processorTask_eq⟩

theorem mem_processorTasks (hd : d.processorTask = some t) (js : List (Console σ ι)) :
    t ∈ processorTasks (d :: js) := by
  unfold processorTasks
  rw [List.mem_filterMap]
  exact ⟨d, List.mem_cons_self, hd⟩

theorem joined_of_ended (ht : d.processorTask = some t) (hended : Task.inLoop (some t) = false) :
    (d.joined hw).processorTask = some t := by
  have hoff : (d.setPowered false).turnsLeft .processor = 0 := by
    change Task.turnsLeft d.processorTask = 0
    rw [ht]
    exact Task.turnsLeft_eq_zero_iff.mpr hended
  exact (processorTask_turns_of_ended hw hoff d.joiningTurns).trans ht

variable {hw}

theorem ended_perform (ht : c.processorTask = some t) (hended : Task.inLoop (some t) = false)
    (command : Command) :
    t ∈ processorTasks (command.joins hw c) ∨ (command.perform hw c).2.processorTask = some t := by
  rcases joins_cases hw c command with ⟨d, js, hd, hjoins⟩ | ⟨-, hsame | hturn⟩
  · left
    rw [hjoins]
    exact mem_processorTasks (joined_of_ended hw (hd.trans ht) hended) js
  · exact .inr (hsame.trans ht)
  · right
    have hstays : c.processorTurn hw = c := turn_of_ended hw (t := .processor) (by
      change Task.turnsLeft c.processorTask = 0
      rw [ht]
      exact Task.turnsLeft_eq_zero_iff.mpr hended)
    rw [hturn, hstays, ht]

theorem isSome_perform (ht : c.processorTask.isSome = true) (command : Command) :
    processorTasks (command.joins hw c) ≠ [] ∨
      (command.perform hw c).2.processorTask.isSome = true := by
  rcases joins_cases hw c command with ⟨d, js, hd, hjoins⟩ | ⟨-, hsame | hturn⟩
  · left
    have hjoined := (sameSession_joined hw d).processor
    change (d.joined hw).processorTask.isSome = d.processorTask.isSome at hjoined
    rw [hd, ht] at hjoined
    obtain ⟨t, ht⟩ := Option.isSome_iff_exists.mp hjoined
    rw [hjoins]
    exact List.ne_nil_of_mem (mem_processorTasks ht js)
  · right
    rw [hsame]
    exact ht
  · right
    rw [hturn, (processorTurn_spec hw c).sameSession.processor]
    exact ht

theorem tasksDuring_cons (c : Console σ ι) (command : Command) (commands : List Command) :
    c.tasksDuring hw (command :: commands) =
      processorTasks (command.joins hw c) ++
        (command.perform hw c).2.tasksDuring hw commands := by
  unfold tasksDuring
  rw [joins, processorTasks_append, List.append_assoc]
  rfl

theorem mem_tasksDuring (ht : c.processorTask = some t) (hended : Task.inLoop (some t) = false)
    (commands : List Command) : t ∈ c.tasksDuring hw commands := by
  induction commands generalizing c with
  | nil => simp [tasksDuring, joins, processorTasks, after, ht]
  | cons command commands ih =>
    rw [tasksDuring_cons, List.mem_append]
    rcases ended_perform ht hended command with hdropped | hstays
    · exact .inl hdropped
    · exact .inr (ih hstays)

theorem tasksDuring_ne_nil (ht : c.processorTask.isSome = true) (commands : List Command) :
    c.tasksDuring hw commands ≠ [] := by
  induction commands generalizing c with
  | nil =>
    obtain ⟨t, ht⟩ := Option.isSome_iff_exists.mp ht
    simp [tasksDuring, joins, processorTasks, after, ht]
  | cons command commands ih =>
    rw [tasksDuring_cons]
    intro hnil
    obtain ⟨hdropped, hrest⟩ := List.append_eq_nil_iff.mp hnil
    rcases isSome_perform ht command with hjoined | hstays
    · exact hjoined hdropped
    · exact ih hstays hrest

theorem timeWhile_inLoop_eq_zero {commands : List Command}
    (h : c.tasksDuring hw commands = []) :
    c.timeWhile hw (fun d => Task.inLoop d.processorTask) commands = 0 := by
  induction commands generalizing c with
  | nil => rfl
  | cons command commands ih =>
    have hnone : c.processorTask = none := by
      cases ht : c.processorTask with
      | none => rfl
      | some t => exact absurd h (tasksDuring_ne_nil (by rw [ht]; rfl) _)
    rw [tasksDuring_cons, List.append_eq_nil_iff] at h
    rw [timeWhile, hnone, ih h.2]
    rfl

/-! ## Whole runs -/

theorem Timed.of_history (hoffs : hw.KeepsOff) (hgenuine : c.Genuine hw) (h : c.Timed ended m)
    (history : List Command) :
    ∃ m', (c.after hw history).Timed (ended ++ processorTasks (c.joins hw history)) m' := by
  induction history generalizing c ended m with
  | nil =>
    refine ⟨m, ?_⟩
    rw [joins, processorTasks, List.filterMap_nil, List.append_nil]
    exact h
  | cons command history ih =>
    rw [joins, processorTasks_append, ← List.append_assoc]
    exact ih (hgenuine.perform command) (h.perform hw hoffs hgenuine command)

/-- As long as the tasks that come to their end do so in one way, so that they all leave the
stopwatch going or none does. -/
theorem Timed.measured_after (hoffs : hw.KeepsOff) (hgenuine : c.Genuine hw)
    (h : c.Timed ended m) {failed : Bool}
    (hended : Task.hasFailed ended.getLast? = failed) {rest : List Command}
    (hrest : ∀ t ∈ c.tasksDuring hw rest,
      Task.inLoop (some t) = false → Task.hasFailed (some t) = failed) :
    (c.after hw rest).measured =
      m + c.timeWhile hw (fun d => Task.inLoop d.processorTask || failed) rest := by
  induction rest generalizing c ended m with
  | nil => exact h.measured
  | cons command rest ih =>
    -- The present task counts as failed only if it is at its end, and then `hrest` says so of it.
    have hgoing : (Task.inLoop c.processorTask ||
        Task.hasFailed (c.processorTask.or ended.getLast?)) =
          (Task.inLoop c.processorTask || failed) := by
      cases ht : c.processorTask with
      | none => rw [Option.none_or, hended]
      | some t =>
        cases hloop : Task.inLoop (some t) with
        | true => rfl
        | false => rw [Option.some_or, hrest t (mem_tasksDuring ht hloop _) hloop]
    have hstep := h.perform hw hoffs hgenuine command
    rw [hgoing] at hstep
    rw [tasksDuring_cons] at hrest
    have hlast : Task.hasFailed (ended ++ processorTasks (command.joins hw c)).getLast? =
        failed := by
      rw [List.getLast?_append]
      cases ht : (processorTasks (command.joins hw c)).getLast? with
      | none => exact hended
      | some t =>
        have hmem := List.mem_of_getLast? ht
        exact hrest t (List.mem_append_left _ hmem) (inLoop_of_mem_joins hoffs hgenuine hmem)
    have hafter := ih (hgenuine.perform command) hstep hlast fun t ht =>
      hrest t (List.mem_append_right _ ht)
    rw [timeWhile, ← Nat.add_assoc]
    exact hafter

/-- When no processor's task is left to wait for, the stopwatch is stopped unless the last one has
failed. -/
theorem stopwatch_stops_unless_processor_failed (hw : Hardware σ ι) (hoffs : hw.KeepsOff) (s : σ)
    (settings : Settings) (history : List Command)
    (hjoined : ((ofHardware s settings : Console σ ι).after hw history).processorTask = none) :
    let console : Console σ ι := ofHardware s settings
    let c := console.after hw history
    let last := (processorTasks (console.joins hw history)).getLast?
    (c.stopwatch.startedAt = none ↔ Task.hasFailed last = false) ∧
    (Task.hasFailed last = false →
      (∀ rest, c.tasksDuring hw rest = [] → (c.after hw rest).measured = c.measured) ∧
      ∀ rest, (∀ t ∈ c.tasksDuring hw rest, Task.hasFailed (some t) = false) →
        (c.after hw rest).measured =
          c.measured + c.timeWhile hw (fun d => Task.inLoop d.processorTask) rest) ∧
    (Task.hasFailed last = true →
      ∀ rest, (∀ t ∈ c.tasksDuring hw rest, t ≠ .stopped) →
        (c.after hw rest).measured = c.measured + c.timeWhile hw (fun _ => true) rest) := by
  intro console c last
  have hstart : console.Timed [] 0 := ⟨rfl, rfl, fun t ht => by cases ht⟩
  have hfresh : console.Genuine hw := Idle.genuine hw ⟨rfl, rfl⟩
  have hgenuine : c.Genuine hw := hfresh.after history
  obtain ⟨m, htimed⟩ := hstart.of_history hoffs hfresh history
  have hm : c.measured = m := htimed.measured
  have hbusy (hlast : Task.hasFailed last = false) (rest : List Command)
      (hrest : ∀ t ∈ c.tasksDuring hw rest, Task.hasFailed (some t) = false) :
      (c.after hw rest).measured =
        c.measured + c.timeWhile hw (fun d => Task.inLoop d.processorTask) rest := by
    have hafter := htimed.measured_after hoffs hgenuine hlast fun t ht _ => hrest t ht
    simpa only [Bool.or_false, hm] using hafter
  refine ⟨?_, fun hlast => ⟨fun rest hnone => ?_, hbusy hlast⟩, fun hlast rest hrest => ?_⟩
  · have hgoing := htimed.going
    rw [hjoined, Option.none_or] at hgoing
    rw [← Option.not_isSome_iff_eq_none, ← Bool.not_eq_true]
    exact not_congr (by rw [hgoing]; rfl)
  · rw [hbusy hlast rest (by rw [hnone]; simp), timeWhile_inLoop_eq_zero hnone, Nat.add_zero]
  · have hfailed (t : ProcessorTask σ ι) (ht : t ∈ c.tasksDuring hw rest)
        (hended : Task.inLoop (some t) = false) : Task.hasFailed (some t) = true := by
      cases t with
      | ready | held => cases hended
      | stopped => exact absurd rfl (hrest _ ht)
      | failed => rfl
    have hafter := htimed.measured_after hoffs hgenuine hlast hfailed
    simpa only [Bool.or_true, hm] using hafter

/-! ## Two boards -/

theorem powerOnJoins_of_granted (hw : Hardware σ ι) (tv : TvStandard) (c : Console σ ι) :
    c.powerOnJoins hw tv {} = [c.noted.joined hw] := by
  unfold powerOnJoins
  cases Console.bootUp hw tv c.noted <;> rfl

theorem processorTask_of_powerOn {tv : TvStandard} (h : powerOn hw tv {} c = .ok (.ok ()) d) :
    d.processorTask = some (.ready 0) := by
  have hspec := powerOn_spec hw c tv {}
  rw [h] at hspec
  cases hspec with
  | started => rfl

theorem joined_of_ready (hoffs : hw.KeepsOff) (hgenuine : c.Genuine hw) {accumulator : UInt64}
    (ready : c.processorTask = some (.ready accumulator)) :
    (c.joined hw).processorTask = some .stopped := by
  have hoff : (c.setPowered false).Genuine hw := hgenuine.of_tasks rfl rfl
  have hturn (d : Console σ ι) (t : Turn) (hd : d.Genuine hw ∧ d.powered = false ∧
      (d.processorTask = some (.ready accumulator) ∨ d.processorTask = some .stopped)) :
      (d.turn hw t).Genuine hw ∧ (d.turn hw t).powered = false ∧
        ((d.turn hw t).processorTask = some (.ready accumulator) ∨
          (d.turn hw t).processorTask = some .stopped) := by
    obtain ⟨hd, hdOff, htask⟩ := hd
    refine ⟨hd.turn t, off_turn hoffs hd hdOff t, ?_⟩
    cases t with
    | processor =>
      right
      rcases htask with htask | htask <;> simp [turn, processorTurn, htask, hdOff, endProcessor]
    | scanlines => rwa [turn, (scanlineTurn_spec hw d).processorTask_eq]
  obtain ⟨-, -, hready | hstopped⟩ := turns_keeps hturn ⟨hoff, rfl, .inl ready⟩ c.joiningTurns
  · have hended := (ended_joined hoffs hgenuine).1
    rw [joined_eq, hready] at hended
    cases hended
  · exact hstopped

theorem joined_of_none (h : c.processorTask = none) : (c.joined hw).processorTask = none := by
  have hsame := (sameSession_joined hw c).processor
  change (c.joined hw).processorTask.isSome = c.processorTask.isSome at hsame
  rw [h] at hsame
  exact Option.isNone_iff_eq_none.mp (by simpa using hsame)

theorem perform_of_powerOn {tv : TvStandard} (h : powerOn hw tv {} c = .ok (.ok ()) d) :
    ((Command.powerOn tv {}).perform hw c).2 = d := by
  simp only [Command.perform, h]

theorem genuine_of_powerOn (hgenuine : c.Genuine hw) {tv : TvStandard}
    (hon : powerOn hw tv {} c = .ok (.ok ()) d) : d.Genuine hw := by
  have hd := hgenuine.perform (.powerOn tv {})
  rwa [perform_of_powerOn hon] at hd

variable (hw) in
theorem session_without_turns (hoffs : hw.KeepsOff) (hgenuine : c.Genuine hw) {tv : TvStandard}
    (hnone : c.processorTask = none) {k : Nat}
    (hon : powerOn hw tv {} (c.pass k) = .ok (.ok ()) d) (n : Nat) :
    let commands : List Command := [.pass k, .powerOn tv {}, .pass n, .shutdown]
    processorTasks (c.joins hw commands) = [.stopped] ∧
      c.tasksDuring hw commands = [.stopped] ∧
      (c.after hw commands).processorTask = none ∧
      c.timeWhile hw (fun d => Task.inLoop d.processorTask) commands = n := by
  intro commands
  have hready := processorTask_of_powerOn hon
  have hpassed : (d.pass n).processorTask = some (.ready 0) := hready
  have hwaited : (c.pass k).Genuine hw := hgenuine.of_tasks rfl rfl
  have hd : (d.pass n).Genuine hw := (genuine_of_powerOn hwaited hon).of_tasks rfl rfl
  have hpass : (Command.perform hw c (.pass k)).2 = c.pass k := rfl
  have hidle : (c.pass k).processorTask = none := hnone
  have hnoted : (c.pass k).noted.processorTask = none := by
    rw [noted_eq]
    exact hidle
  have hjoins : c.joins hw commands = [(c.pass k).noted.joined hw, (d.pass n).joined hw] := by
    simp only [commands, joins, Command.joins, hpass, powerOnJoins_of_granted,
      perform_of_powerOn hon]
    rfl
  have hended : processorTasks (c.joins hw commands) = [.stopped] := by
    simp [hjoins, processorTasks, joined_of_none hnoted,
      joined_of_ready hoffs hd hpassed]
  have hafter : (c.after hw commands).processorTask = none := (idle_shutdown hw _).1
  refine ⟨hended, ?_, hafter, ?_⟩
  · unfold tasksDuring
    rw [hended, hafter]
    rfl
  · simp [commands, timeWhile, hpass, perform_of_powerOn hon, Command.time, hnone, hidle, hready,
      Task.inLoop]

/-- Two sessions, of two nanoseconds and of three, with five nanoseconds in between. -/
theorem sessions_of_testBoard_are_measured :
    let hw := TestBoard.hardware
    let c := (ofHardware {} {}).after hw [.pass 9, .powerOn .ntsc {}, .pass 2, .shutdown]
    c.stopwatch.startedAt = none ∧ (c.pass 5).measured = c.measured ∧
      (c.after hw [.pass 5, .powerOn .pal {}, .pass 3, .shutdown]).measured = c.measured + 3 := by
  have hstart : (ofHardware {} {} : Console TestBoard TestBoard.Instruction).processorTask = none :=
    rfl
  obtain ⟨d, hon⟩ := powerOn_testBoard .ntsc ((ofHardware {} {}).pass 9)
  have hfresh : (ofHardware {} {} : Console TestBoard TestBoard.Instruction).Genuine
      TestBoard.hardware := Idle.genuine _ ⟨rfl, rfl⟩
  obtain ⟨hlast, -, hnone, -⟩ :=
    session_without_turns TestBoard.hardware testBoard_keepsOff hfresh hstart hon 2
  have hgenuine := hfresh.after [.pass 9, .powerOn .ntsc {}, .pass 2, .shutdown]
  obtain ⟨hstopped, hgood, -⟩ :=
    stopwatch_stops_unless_processor_failed TestBoard.hardware testBoard_keepsOff {} {} _ hnone
  rw [hlast] at hstopped hgood
  -- The console is held abstract, so that its run is not computed.
  dsimp only
  generalize after TestBoard.hardware (ofHardware {} {}) _ = c at hnone hgenuine hstopped hgood ⊢
  obtain ⟨hsame, hbusy⟩ := hgood rfl
  obtain ⟨d', hon'⟩ := powerOn_testBoard .pal (c.pass 5)
  obtain ⟨-, hduring, -, htime⟩ :=
    session_without_turns TestBoard.hardware testBoard_keepsOff hgenuine hnone hon' 3
  refine ⟨hstopped.mpr rfl, hsame [.pass 5] ?_, ?_⟩
  · change processorTasks [] ++ c.processorTask.toList = []
    rw [hnone]
    rfl
  · rw [hbusy _ (by rw [hduring]; simp [Task.hasFailed]), htime]

def faultingBoard : Hardware TestBoard TestBoard.Instruction :=
  { TestBoard.hardware with poll := fun _ => throw (.hardware "no interrupt controller") }

theorem faultingBoard_keepsOff : faultingBoard.KeepsOff :=
  { testBoard_keepsOff with poll := fun _ _ h => h }

theorem powerOn_faultingBoard (tv : TvStandard) (c : Console TestBoard TestBoard.Instruction) :
    ∃ d, powerOn faultingBoard tv {} c = .ok (.ok ()) d ∧ d.powered = true := by
  have hinit : faultingBoard.InitSparesMachine := fun b => ⟨_, rfl, fun _ => rfl⟩
  have hcop0 : faultingBoard.powerOnCop0.Writes [] := fun b => ⟨_, b.powered, rfl⟩
  have hcop1 : faultingBoard.powerOnCop1.Writes [] := fun b => ⟨_, b.powered, rfl⟩
  obtain ⟨r, hreset, -⟩ := reset_writes tv c hcop0 hcop1
  obtain ⟨e, hboot, hprepared⟩ := exists_prepared hinit hreset
  refine ⟨e.startProcessor.startScanlines,
    (powerOn_ok_iff faultingBoard tv {} c).mpr ⟨e, hboot, rfl, rfl⟩, ?_⟩
  change e.machine.powered = true
  rw [hprepared.machine]
  rfl

theorem processorTurn_faultingBoard {c : Console TestBoard TestBoard.Instruction}
    {accumulator : UInt64} (ready : c.processorTask = some (.ready accumulator))
    (on : c.powered = true) :
    (c.processorTurn faultingBoard).processorTask =
      some (.failed (.hardware "no interrupt controller")) := by
  obtain ⟨⟨hardware, registers, powered, cycles, statistics⟩, settings, p, s, journal, now,
    lastTurns⟩ := c
  cases ready
  cases on
  rfl

/-- The console is off and holds no task, and still five more nanoseconds are measured. The next
session counts them, next to three of its own. -/
theorem fault_leaves_stopwatch_going :
    let hw := faultingBoard
    let c := (ofHardware {} {}).after hw [.powerOn .ntsc {}, .turn .processor, .shutdown]
    c.powered = false ∧ c.Idle ∧ (c.pass 5).measured = c.measured + 5 ∧
      (c.after hw [.pass 5, .powerOn .pal {}, .pass 3, .shutdown]).measured = c.measured + 8 := by
  have hstart : (ofHardware {} {} : Console TestBoard TestBoard.Instruction).Timed [] 0 :=
    ⟨rfl, rfl, fun t ht => by cases ht⟩
  have hfresh : (ofHardware {} {} : Console TestBoard TestBoard.Instruction).Genuine
      faultingBoard := Idle.genuine _ ⟨rfl, rfl⟩
  obtain ⟨d, hon, hpower⟩ := powerOn_faultingBoard .ntsc (ofHardware {} {})
  have hd : (d.processorTurn faultingBoard).Genuine faultingBoard :=
    (genuine_of_powerOn hfresh hon).turn .processor
  have hfailed := processorTurn_faultingBoard (processorTask_of_powerOn hon) hpower
  have hjoined := joined_of_ended faultingBoard hfailed rfl
  have hc : after faultingBoard (ofHardware {} {})
      [.powerOn .ntsc {}, .turn .processor, .shutdown] =
        (d.processorTurn faultingBoard).shutdown faultingBoard := by
    rw [← perform_of_powerOn hon]
    rfl
  obtain ⟨ended, m, htimed, hlast⟩ : ∃ ended m,
      Timed ended m ((d.processorTurn faultingBoard).shutdown faultingBoard) ∧
        Task.hasFailed ended.getLast? = true := by
    have htimed := hstart.powerOn _ faultingBoard_keepsOff hfresh .ntsc {}
    rw [hon] at htimed
    have htimed : d.Timed _ 0 := htimed
    refine ⟨_, _, (htimed.processorTurn faultingBoard).shutdown faultingBoard_keepsOff hd, ?_⟩
    rw [getLast?_append_processorTasks, hjoined]
    rfl
  have hoff := off_shutdown faultingBoard_keepsOff hd
  have hidle := idle_shutdown faultingBoard (d.processorTurn faultingBoard)
  dsimp only
  rw [hc]
  generalize (d.processorTurn faultingBoard).shutdown faultingBoard = c at hoff hidle htimed ⊢
  have hfive : (c.pass 5).Timed ended (m + 5) := by
    have hpass := htimed.pass 5
    rwa [hidle.1, Option.none_or, hlast] at hpass
  have hpassed : (c.pass 5).Genuine faultingBoard :=
    (hidle.genuine faultingBoard).of_tasks rfl rfl
  obtain ⟨d', hon', -⟩ := powerOn_faultingBoard .pal (c.pass 5)
  have hresumed := hfive.powerOn _ faultingBoard_keepsOff hpassed .pal {}
  rw [hon'] at hresumed
  have hresumed : d'.Timed _ (m + 5) := hresumed
  have hd' : (d'.pass 3).Genuine faultingBoard :=
    (genuine_of_powerOn hpassed hon').of_tasks rfl rfl
  have hthree := hresumed.pass 3
  rw [processorTask_of_powerOn hon'] at hthree
  refine ⟨hoff, hidle, hfive.measured.trans (by rw [htimed.measured]), ?_⟩
  have hend : c.after faultingBoard [.pass 5, .powerOn .pal {}, .pass 3, .shutdown] =
      (d'.pass 3).shutdown faultingBoard := by
    rw [← perform_of_powerOn hon']
    rfl
  rw [hend, (hthree.shutdown faultingBoard_keepsOff hd').measured, htimed.measured]
  rfl

end Console

end ConsoleCore
