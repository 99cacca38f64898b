import ConsoleCore.Proofs.Console.MeasuredTime

/-!
# Who reports a fault

A task that faults does not say so itself. The next operation that waits for the tasks finds out and
reports it, and a shutdown that finds the power on adds a summary. What is reported in a whole
history can be told from the faults and the shutdowns in it alone.
-/

namespace ConsoleCore

variable {σ ι α β : Type}

/-! ## Reports -/

inductive Report where
  | failure
  | summary
  deriving DecidableEq, Repr

def Message.report? : Message → Option Report
  | taskFailed => some .failure
  | poweredOff .. => some .summary
  | _ => none

def JournalEntry.report? (e : JournalEntry) : Option Report :=
  if e.speaker = .caller then e.message.report? else none

def Console.reports (c : Console σ ι) : List Report := c.journal.filterMap JournalEntry.report?

/-! ## Events -/

inductive TaskEvent where
  | started (t : Turn)
  | faulted (t : Turn) (e : Fault)
  /-- A shutdown has waited for both tasks and dropped them. The power was on before it, or off. -/
  | joined (on : Bool)
  deriving DecidableEq, Repr

namespace TaskEvent

def isFault : TaskEvent → Bool
  | faulted .. => true
  | started _ | joined _ => false

/-- How many faults there are to report after the event, if there were `n` before. -/
def pending (n : Nat) : TaskEvent → Nat
  | started _ => n
  | faulted .. => n + 1
  | joined _ => 0

def reports (n : Nat) : TaskEvent → List Report
  | started _ | faulted .. => []
  | joined on => List.replicate n .failure ++ if on then [.summary] else []

def runs (t : Turn) (b : Bool) : TaskEvent → Bool
  | started u => u = t || b
  | faulted u _ => u ≠ t && b
  | joined _ => false

def pendingAfter (n : Nat) (es : List TaskEvent) : Nat := es.foldl pending n

/-- Every fault is reported when both tasks are waited for the next time. -/
def reportsOf : Nat → List TaskEvent → List Report
  | _, [] => []
  | n, e :: es => e.reports n ++ reportsOf (e.pending n) es

def running (t : Turn) (es : List TaskEvent) : Bool := es.foldl (runs t) false

/-- A task faults only while it runs: it was started, and has neither faulted nor been waited for
since. -/
def FaultsOnlyRunning (es : List TaskEvent) : Prop :=
  ∀ before t e, before ++ [faulted t e] <+: es → running t before = true

variable {es : List TaskEvent} {x : TaskEvent} {n : Nat}

theorem pendingAfter_snoc (n : Nat) (es : List TaskEvent) (x : TaskEvent) :
    pendingAfter n (es ++ [x]) = x.pending (pendingAfter n es) := List.foldl_append

theorem running_snoc (t : Turn) (es : List TaskEvent) (x : TaskEvent) :
    running t (es ++ [x]) = x.runs t (running t es) := List.foldl_append

theorem reportsOf_append (n : Nat) (es es' : List TaskEvent) :
    reportsOf n (es ++ es') = reportsOf n es ++ reportsOf (pendingAfter n es) es' := by
  induction es generalizing n with
  | nil => rfl
  | cons x es ih =>
    rw [List.cons_append, reportsOf, ih, reportsOf, List.append_assoc]
    rfl

theorem reportsOf_snoc (n : Nat) (es : List TaskEvent) (x : TaskEvent) :
    reportsOf n (es ++ [x]) = reportsOf n es ++ x.reports (pendingAfter n es) := by
  rw [reportsOf_append, reportsOf, reportsOf, List.append_nil]

theorem FaultsOnlyRunning.snoc (h : FaultsOnlyRunning es)
    (hx : ∀ t e, x = faulted t e → running t es = true) : FaultsOnlyRunning (es ++ [x]) := by
  intro before t e hprefix
  rcases List.prefix_concat_iff.mp hprefix with heq | hprefix
  · obtain ⟨rfl, hlast⟩ := List.append_inj' heq rfl
    exact hx t e (List.singleton_inj.mp hlast).symm
  · exact h before t e hprefix

/-- No fault is lost, and none is reported twice. -/
theorem count_failure_reportsOf (n : Nat) (es : List TaskEvent) :
    (reportsOf n es).count .failure + pendingAfter n es = n + es.countP isFault := by
  induction es generalizing n with
  | nil => exact Nat.zero_add n
  | cons x es ih =>
    have hrest := ih (x.pending n)
    rw [reportsOf, List.count_append, Nat.add_assoc]
    change _ + (_ + pendingAfter (x.pending n) es) = _
    rw [hrest]
    cases x with
    | started t => simp [reports, pending, isFault]
    | faulted t e =>
      have hcount : (faulted t e :: es).countP isFault = es.countP isFault + 1 :=
        List.countP_cons_of_pos rfl
      simp only [reports, pending, List.count_nil, hcount]
      omega
    | joined on => cases on <;> simp [reports, pending, isFault]

theorem count_summary_reportsOf (n : Nat) (es : List TaskEvent) :
    (reportsOf n es).count .summary = es.count (joined true) := by
  induction es generalizing n with
  | nil => rfl
  | cons x es ih =>
    rw [reportsOf, List.count_append, ih]
    cases x with
    | started | faulted => simp [reports]
    | joined on => cases on <;> simp [reports, List.count_replicate]; omega

end TaskEvent

/-! ## The faults of a turn -/

namespace Console

variable (hw : Hardware σ ι)

def processorFault? (c : Console σ ι) : Option Fault :=
  match c.processorTask with
  | some (.ready accumulator) =>
    if c.powered then fault? (Processor.advance hw ⟨c.rig, accumulator⟩) else none
  | some (.held accumulator f hold) =>
    if hold.wait.over c.powered (Task.arrived c.scanlineTask) then
      fault? (Processor.resume hw f hold ⟨c.rig, accumulator⟩)
    else none
  | _ => none

def scanlineFault? (c : Console σ ι) : Option Fault :=
  match c.scanlineTask with
  | some (.ready (line, period)) =>
    if c.powered then fault? (ScanlineTimer.advance hw ⟨c.rig, line, period⟩) else none
  | some (.held (line, period) _ hold) =>
    if hold.wait.over c.powered (Task.arrived c.processorTask) then
      fault? (ScanlineTimer.resume hold ⟨c.rig, line, period⟩)
    else none
  | _ => none

def turnFault? (c : Console σ ι) : Turn → Option Fault
  | .processor => c.processorFault? hw
  | .scanlines => c.scanlineFault? hw

def turnEvents (c : Console σ ι) (t : Turn) : List TaskEvent :=
  (c.turnFault? hw t).toList.map (.faulted t)

def turnsEvents : List Turn → Console σ ι → List TaskEvent
  | [], _ => []
  | t :: schedule, c => c.turnEvents hw t ++ turnsEvents schedule (c.turn hw t)

/-! ## Commands and their events -/

def shutdownEvents (c : Console σ ι) : List TaskEvent :=
  turnsEvents hw c.joiningTurns (c.setPowered false) ++ [.joined c.powered]

def spawnEvents (host : Host) (c : Console σ ι) : List TaskEvent :=
  let headStart :=
    .started .processor :: turnsEvents hw host.firstTurns c.startProcessor
  match host.processorRefusal, host.scanlineRefusal with
  | some _, _ => []
  | none, some _ => headStart ++ shutdownEvents hw (c.withHeadStart hw host)
  | none, none => headStart ++ [.started .scanlines]

def powerOnEvents (tv : TvStandard) (host : Host) (c : Console σ ι) : List TaskEvent :=
  shutdownEvents hw c.noted ++
    match bootUp hw tv c.noted with
    | .ok _ d => spawnEvents hw host d
    | .error _ _ => []

end Console

def Command.taskEvents (hw : Hardware σ ι) (c : Console σ ι) : Command → List TaskEvent
  | reset _ | shutdown | drop => c.shutdownEvents hw
  | powerOn tv host => c.powerOnEvents hw tv host
  | turn t => c.turnEvents hw t
  | setPowered _ | pass _ | plan _ => []

namespace Console

variable (hw : Hardware σ ι)

def taskEvents : Console σ ι → List Command → List TaskEvent
  | _, [] => []
  | c, command :: commands =>
    command.taskEvents hw c ++ taskEvents (command.perform hw c).2 commands

end Console

/-! ## One turn -/

theorem Task.hasFailed_of_inLoop {x : Option (Task σ α β)} (h : inLoop x = true) :
    hasFailed x = false := by
  rcases x with _ | ⟨_ | _ | _ | _⟩ <;> first | rfl | cases h

/-- What a turn that ends with the fault, or without one, makes of its task. -/
structure Task.Stepped (fault : Option Fault) (x y : Option (Task σ α β)) : Prop where
  failed : hasFailed y = (hasFailed x || fault.isSome)
  inLoop : inLoop y = true → Task.inLoop x = true ∧ fault = none
  atWork : fault.isSome = true → Task.inLoop x = true

namespace Task.Stepped

variable {fault : Option Fault} {x y : Option (Task σ α β)}

theorem refl (x : Option (Task σ α β)) : Stepped none x x :=
  ⟨(Bool.or_false _).symm, fun h => ⟨h, rfl⟩, fun h => by cases h⟩

theorem of_inLoop (hx : Task.inLoop x = true) (hy : Task.inLoop y = fault.isNone)
    (hfailed : hasFailed y = fault.isSome) : Stepped fault x y where
  failed := by rw [hfailed, hasFailed_of_inLoop hx, Bool.false_or]
  inLoop h := ⟨hx, Option.isNone_iff_eq_none.mp (hy.symm.trans h)⟩
  atWork _ := hx

theorem stop (hx : Task.inLoop x = true) : Stepped none x (some .stopped) where
  failed := by rw [hasFailed_of_inLoop hx]; rfl
  inLoop h := by cases h
  atWork h := by cases h

theorem toNat_hasFailed (h : Stepped fault x y) :
    (hasFailed y).toNat = (hasFailed x).toNat + fault.isSome.toNat := by
  rw [h.failed]
  cases fault with
  | none => rw [Option.isSome_none, Bool.or_false]; rfl
  | some e => rw [hasFailed_of_inLoop (h.atWork rfl)]; rfl

end Task.Stepped

namespace Console

variable (hw : Hardware σ ι) (c : Console σ ι)

theorem stepped_processorTurn :
    Task.Stepped (c.processorFault? hw) c.processorTask (c.processorTurn hw).processorTask := by
  have hran {x : Option (ProcessorTask σ ι)} (hx : Task.inLoop x = true)
      (r : EStateM.Result Fault (Processor σ) (Option (Processor.InFlight ι × Hold σ))) :
      Task.Stepped (fault? r) x (some (processorTaskAfter r)) := by
    rcases r with ⟨_ | ⟨f, hold⟩, p⟩ | ⟨e, p⟩ <;> exact .of_inLoop hx rfl rfl
  unfold processorFault? processorTurn
  rcases h : c.processorTask with _ | ⟨accumulator | ⟨accumulator, f, hold⟩ | _ | _⟩ <;> dsimp only
  case some.ready =>
    split
    · rw [runProcessor_eq]
      exact hran rfl _
    · exact .stop rfl
  case some.held =>
    split
    · rw [runProcessor_eq]
      exact hran rfl _
    · rw [h]
      exact .refl _
  all_goals
    rw [h]
    exact .refl _

theorem stepped_scanlineTurn :
    Task.Stepped (c.scanlineFault? hw) c.scanlineTask (c.scanlineTurn hw).scanlineTask := by
  have hran {x : Option (ScanlineTask σ)} (hx : Task.inLoop x = true)
      (r : EStateM.Result Fault (ScanlineTimer σ) (Option (Hold σ))) :
      Task.Stepped (fault? r) x (some (scanlineTaskAfter r)) := by
    rcases r with ⟨_ | hold, t⟩ | ⟨e, t⟩ <;> exact .of_inLoop hx rfl rfl
  unfold scanlineFault? scanlineTurn
  rcases h : c.scanlineTask with _ | ⟨⟨line, period⟩ | ⟨⟨line, period⟩, _, hold⟩ | _ | _⟩ <;>
    dsimp only
  case some.ready =>
    split
    · rw [runScanlines_eq]
      exact hran rfl _
    · exact .stop rfl
  case some.held =>
    split
    · rw [runScanlines_eq]
      exact hran rfl _
    · rw [h]
      exact .refl _
  all_goals
    rw [h]
    exact .refl _

variable {hw c} {d : Console σ ι}

theorem reports_say (c : Console σ ι) (speaker : Speaker) (message : Message) :
    (c.say speaker message).reports =
      c.reports ++ (JournalEntry.report? { speaker, message }).toList := by
  unfold reports say
  rw [List.filterMap_append]
  cases h : JournalEntry.report? { speaker, message } <;> simp [h]

theorem reports_turn (hw : Hardware σ ι) (c : Console σ ι) (t : Turn) :
    (c.turn hw t).reports = c.reports := by
  cases t with
  | processor =>
    have hturn := processorTurn_spec hw c
    change (c.processorTurn hw).reports = c.reports
    generalize c.processorTurn hw = d at hturn
    cases hturn with
    | nothing => rfl
    | round | rest => rw [runProcessor_eq]; rfl
    | finish => exact (reports_say _ _ _).trans (List.append_nil _)
  | scanlines =>
    have hturn := scanlineTurn_spec hw c
    change (c.scanlineTurn hw).reports = c.reports
    generalize c.scanlineTurn hw = d at hturn
    cases hturn with
    | nothing => rfl
    | round | rest => rw [runScanlines_eq]; rfl
    | finish => exact (reports_say _ _ _).trans (List.append_nil _)

/-! ## Both tasks -/

def taskInLoop (c : Console σ ι) : Turn → Bool
  | .processor => Task.inLoop c.processorTask
  | .scanlines => Task.inLoop c.scanlineTask

def taskHasFailed (c : Console σ ι) : Turn → Bool
  | .processor => Task.hasFailed c.processorTask
  | .scanlines => Task.hasFailed c.scanlineTask

def failures (c : Console σ ι) : Nat :=
  (c.taskHasFailed .processor).toNat + (c.taskHasFailed .scanlines).toNat

theorem taskInLoop_turn {t : Turn} {u : Turn} (h : (c.turn hw t).taskInLoop u = true) :
    c.taskInLoop u = true ∧ (u = t → c.turnFault? hw t = none) := by
  cases t with
  | processor =>
    cases u with
    | processor =>
      obtain ⟨hc, hnone⟩ := (stepped_processorTurn hw c).inLoop h
      exact ⟨hc, fun _ => hnone⟩
    | scanlines =>
      have hother := (processorTurn_spec hw c).scanlineTask_eq
      refine ⟨?_, fun hut => by cases hut⟩
      change Task.inLoop (c.processorTurn hw).scanlineTask = true at h
      rwa [hother] at h
  | scanlines =>
    cases u with
    | processor =>
      have hother := (scanlineTurn_spec hw c).processorTask_eq
      refine ⟨?_, fun hut => by cases hut⟩
      change Task.inLoop (c.scanlineTurn hw).processorTask = true at h
      rwa [hother] at h
    | scanlines =>
      obtain ⟨hc, hnone⟩ := (stepped_scanlineTurn hw c).inLoop h
      exact ⟨hc, fun _ => hnone⟩

theorem taskInLoop_of_turnFault? {t : Turn} {e : Fault} (h : c.turnFault? hw t = some e) :
    c.taskInLoop t = true := by
  have hsome : (c.turnFault? hw t).isSome = true := by rw [h]; rfl
  cases t with
  | processor => exact (stepped_processorTurn hw c).atWork hsome
  | scanlines => exact (stepped_scanlineTurn hw c).atWork hsome

theorem failures_turn (hw : Hardware σ ι) (c : Console σ ι) (t : Turn) :
    (c.turn hw t).failures = c.failures + (c.turnFault? hw t).isSome.toNat := by
  cases t with
  | processor =>
    have hother := (processorTurn_spec hw c).scanlineTask_eq
    have hcount := (stepped_processorTurn hw c).toNat_hasFailed
    simp only [failures, taskHasFailed, turn, turnFault?, hother, hcount]
    omega
  | scanlines =>
    have hother := (scanlineTurn_spec hw c).processorTask_eq
    have hcount := (stepped_scanlineTurn hw c).toNat_hasFailed
    simp only [failures, taskHasFailed, turn, turnFault?, hother, hcount]
    omega

/-! ## The console against the events -/

open TaskEvent (reportsOf pendingAfter FaultsOnlyRunning)

/-- The console has reported what the events ask for, and its tasks are as the events leave them. -/
structure Told (es : List TaskEvent) (c : Console σ ι) : Prop where
  reports : c.reports = reportsOf 0 es
  pending : c.failures = pendingAfter 0 es
  running : ∀ t, c.taskInLoop t = true → TaskEvent.running t es = true
  faults : FaultsOnlyRunning es

variable {es : List TaskEvent}

theorem Told.snoc (h : Told es c) {x : TaskEvent}
    (hreports : d.reports = c.reports ++ x.reports c.failures)
    (hpending : d.failures = x.pending c.failures)
    (hrunning : ∀ t, d.taskInLoop t = true → x.runs t (TaskEvent.running t es) = true)
    (hfault : ∀ t e, x = .faulted t e → TaskEvent.running t es = true) : Told (es ++ [x]) d where
  reports := by rw [hreports, h.reports, h.pending, TaskEvent.reportsOf_snoc]
  pending := by rw [hpending, h.pending, TaskEvent.pendingAfter_snoc]
  running t ht := by
    rw [TaskEvent.running_snoc]
    exact hrunning t ht
  faults := h.faults.snoc hfault

theorem Told.congr (h : Told es c) (hreports : d.reports = c.reports)
    (hprocessor : d.processorTask = c.processorTask) (hscanlines : d.scanlineTask = c.scanlineTask) :
    Told es d where
  reports := hreports.trans h.reports
  pending := by
    unfold failures taskHasFailed
    rw [hprocessor, hscanlines]
    exact h.pending
  running t ht := by
    refine h.running t ?_
    unfold taskInLoop at ht ⊢
    rwa [hprocessor, hscanlines] at ht
  faults := h.faults

variable (hw)

theorem Told.turn (h : Told es c) (t : Turn) : Told (es ++ c.turnEvents hw t) (c.turn hw t) := by
  have hreports := reports_turn hw c t
  have hfailures := failures_turn hw c t
  unfold turnEvents
  cases hfault : c.turnFault? hw t with
  | none =>
    rw [hfault] at hfailures
    rw [Option.toList_none, List.map_nil, List.append_nil]
    exact ⟨hreports.trans h.reports, hfailures.trans h.pending,
      fun u hu => h.running u (taskInLoop_turn hu).1, h.faults⟩
  | some e =>
    rw [hfault] at hfailures
    have hloop := h.running t (taskInLoop_of_turnFault? hfault)
    refine h.snoc (hreports.trans (List.append_nil _).symm) hfailures (fun u hu => ?_) ?_
    · obtain ⟨hc, hnone⟩ := taskInLoop_turn hu
      have hne : t ≠ u := by
        rintro rfl
        cases (hnone rfl).symm.trans hfault
      simp [TaskEvent.runs, hne, h.running u hc]
    · rintro _ _ ⟨⟩
      exact hloop

theorem Told.turns (h : Told es c) (schedule : List Turn) :
    Told (es ++ turnsEvents hw schedule c) (c.turns hw schedule) := by
  induction schedule generalizing c es with
  | nil =>
    rw [turnsEvents, List.append_nil]
    exact h
  | cons t schedule ih =>
    rw [turnsEvents, ← List.append_assoc]
    exact ih (h.turn hw t)

/-! ## Waiting for the tasks -/

theorem reports_sayAll (c : Console σ ι) (speaker : Speaker) (messages : List Message) :
    (c.sayAll speaker messages).reports =
      c.reports ++ messages.filterMap fun message => JournalEntry.report? { speaker, message } := by
  unfold reports sayAll
  rw [List.filterMap_append, List.filterMap_map]
  rfl

theorem collectTasks_eq (c : Console σ ι) :
    c.collectTasks = sayAll .caller (List.replicate c.failures .taskFailed)
      { c with processorTask := none, scanlineTask := none } := by
  have hmessages : ([Task.hasFailed c.processorTask, Task.hasFailed c.scanlineTask].filter id).map
      (fun _ => Message.taskFailed) = List.replicate c.failures .taskFailed := by
    unfold failures taskHasFailed
    cases Task.hasFailed c.processorTask <;> cases Task.hasFailed c.scanlineTask <;> rfl
  dsimp only [collectTasks]
  rw [hmessages]

theorem reports_shutdown (c : Console σ ι) :
    (c.shutdown hw).reports =
      (c.joined hw).reports ++ TaskEvent.reports (c.joined hw).failures (.joined c.powered) := by
  have hfailures (n : Nat) : (List.replicate n Message.taskFailed).filterMap
      (fun message => JournalEntry.report? { speaker := .caller, message }) =
        List.replicate n .failure := List.filterMap_replicate_of_some rfl
  have hcollected : (c.joined hw).collectTasks.reports =
      (c.joined hw).reports ++ List.replicate (c.joined hw).failures .failure := by
    rw [collectTasks_eq, reports_sayAll, hfailures]
    rfl
  change reports (if c.powered then (c.joined hw).collectTasks.say .caller
    (c.joined hw).collectTasks.summary else (c.joined hw).collectTasks) = _
  unfold TaskEvent.reports
  rw [← List.append_assoc, ← hcollected]
  cases c.powered with
  | false => exact (List.append_nil _).symm
  | true => exact reports_say _ _ _

theorem Idle.taskInLoop (h : c.Idle) (t : Turn) : c.taskInLoop t = false := by
  obtain ⟨hprocessor, hscanlines⟩ := h
  unfold Console.taskInLoop
  rw [hprocessor, hscanlines]
  cases t <;> rfl

theorem Idle.failures (h : c.Idle) : c.failures = 0 := by
  obtain ⟨hprocessor, hscanlines⟩ := h
  unfold Console.failures taskHasFailed
  rw [hprocessor, hscanlines]
  rfl

theorem turnsEvents_of_ended (h : c.Ended) (schedule : List Turn) :
    turnsEvents hw schedule c = [] := by
  have hnone (t : Turn) : c.turnEvents hw t = [] := by
    have hfault : c.turnFault? hw t = none := by
      cases hf : c.turnFault? hw t with
      | none => rfl
      | some e =>
        have hloop := taskInLoop_of_turnFault? hf
        cases t with
        | processor => cases (Task.turnsLeft_eq_zero_iff.mp h.1).symm.trans hloop
        | scanlines => cases (Task.turnsLeft_eq_zero_iff.mp h.2).symm.trans hloop
    unfold turnEvents
    rw [hfault]
    rfl
  induction schedule with
  | nil => rfl
  | cons t schedule ih => rw [turnsEvents, hnone, h.turn hw t, ih]; rfl

theorem Ended.shutdownEvents (h : c.Ended) : c.shutdownEvents hw = [.joined c.powered] := by
  have hoff : (c.setPowered false).Ended := h
  unfold Console.shutdownEvents
  rw [turnsEvents_of_ended hw hoff]
  rfl

theorem Told.shutdown (h : Told es c) : Told (es ++ c.shutdownEvents hw) (c.shutdown hw) := by
  have hoff : Told es (c.setPowered false) := h.congr rfl rfl rfl
  have hjoined := hoff.turns hw c.joiningTurns
  have hidle := idle_shutdown hw c
  unfold shutdownEvents
  rw [← List.append_assoc]
  refine hjoined.snoc (reports_shutdown hw c) hidle.failures (fun t ht => ?_) ?_
  · cases (hidle.taskInLoop t).symm.trans ht
  · rintro _ _ ⟨⟩

/-! ## Reset and power on -/

theorem reports_booted (c : Console σ ι) (tv : TvStandard) :
    (c.booted hw tv).reports = c.reports := by
  let report? (message : Message) := JournalEntry.report? { speaker := .caller, message }
  have hremarks : (c.print hw).remarks.filterMap report? = [] := by
    unfold Fingerprint.remarks
    split <;> rfl
  have hregisters {message : Nat × UInt64 → Message} (h : ∀ x, report? (message x) = none) :
      (BootState.fixedRegisters.map message).filterMap report? = [] := by
    rw [List.filterMap_map]
    exact List.filterMap_eq_nil_iff.mpr fun x _ => h x
  unfold booted
  rw [reports_sayAll, List.filterMap_append, List.filterMap_append, hremarks,
    hregisters fun _ => rfl]
  exact List.append_nil _

theorem keeps_told_call {hook : Hook σ α} :
    Keeps (fun c : Console σ ι => Told es c) (call hook) := by
  intro c hc
  simp only [call]
  cases c.rig.call hook <;> exact hc.congr rfl rfl rfl

theorem Told.reset (h : Told es c) (tv : TvStandard) :
    Told (es ++ c.shutdownEvents hw) (endState (reset hw tv c)) :=
  endState_reset_of_done hw tv c (I := fun d => Told (es ++ c.shutdownEvents hw) d)
    ((h.shutdown hw).congr (reports_booted hw _ tv) rfl rfl) keeps_told_call keeps_told_call
    fun d _ _ hd => hd.congr ((reports_say d _ _).trans (List.append_nil _)) rfl rfl

theorem Told.bootUp (h : Told es c) (tv : TvStandard) :
    Told (es ++ c.shutdownEvents hw) (endState (bootUp hw tv c)) :=
  endState_bootUp (I := fun d => Told (es ++ c.shutdownEvents hw) d) (h.reset hw tv)
    (fun _ hd => hd.congr rfl rfl rfl) keeps_told_call

theorem Told.startProcessor (h : Told es c) (hidle : c.Idle) :
    Told (es ++ [.started .processor]) c.startProcessor := by
  have hfailures : c.startProcessor.failures = c.failures := by
    unfold failures taskHasFailed
    rw [hidle.1]
    rfl
  refine h.snoc (List.append_nil _).symm hfailures (fun t ht => ?_) (by rintro _ _ ⟨⟩)
  cases t with
  | processor => rfl
  | scanlines => exact h.running .scanlines ht

theorem Told.startScanlines (h : Told es c) (hnone : c.scanlineTask = none) :
    Told (es ++ [.started .scanlines]) c.startScanlines := by
  have hfailures : c.startScanlines.failures = c.failures := by
    unfold failures taskHasFailed
    rw [hnone]
    rfl
  refine h.snoc (List.append_nil _).symm hfailures (fun t ht => ?_) (by rintro _ _ ⟨⟩)
  cases t with
  | processor => exact h.running .processor ht
  | scanlines => rfl

theorem Told.spawned (h : Told es c) (hidle : c.Idle) (host : Host) :
    Told (es ++ c.spawnEvents hw host) (c.spawned hw host) := by
  have hhead : Told (es ++ (.started .processor ::
      turnsEvents hw host.firstTurns c.startProcessor)) (c.withHeadStart hw host) := by
    rw [List.append_cons]
    exact (h.startProcessor hidle).turns hw host.firstTurns
  have hnone : (c.withHeadStart hw host).scanlineTask = none :=
    scanlineTask_withHeadStart hidle host
  unfold spawnEvents Console.spawned
  cases host.processorRefusal with
  | some cause =>
    rw [List.append_nil]
    exact h.congr rfl rfl rfl
  | none =>
    cases host.scanlineRefusal with
    | some cause =>
      rw [← List.append_assoc]
      exact hhead.shutdown hw
    | none =>
      rw [← List.append_assoc]
      exact hhead.startScanlines hnone

theorem Told.powerOn (h : Told es c) (tv : TvStandard) (host : Host) :
    Told (es ++ c.powerOnEvents hw tv host) (endState (powerOn hw tv host c)) := by
  have hnoted : Told es c.noted := by
    unfold noted
    split
    · exact h.congr ((reports_say c _ _).trans (List.append_nil _)) rfl rfl
    · exact h
  have hboot := hnoted.bootUp hw tv
  unfold powerOnEvents
  rw [powerOn_eq_bootUp]
  cases hr : Console.bootUp hw tv c.noted with
  | error e d =>
    rw [hr] at hboot
    rw [bind_of_error hr, List.append_nil]
    exact hboot
  | ok _ d =>
    rw [hr] at hboot
    rw [bind_of_ok hr, spawnTasks_eq, ← List.append_assoc]
    exact hboot.spawned hw (idle_of_bootUp hr) host

/-! ## Commands -/

theorem Told.perform (h : Told es c) (command : Command) :
    Told (es ++ command.taskEvents hw c) (command.perform hw c).2 := by
  cases command with
  | reset tv =>
    rw [Command.perform_reset]
    exact h.reset hw tv
  | powerOn tv host =>
    rw [Command.perform_powerOn]
    exact h.powerOn hw tv host
  | shutdown | drop => exact h.shutdown hw
  | setPowered | pass | plan =>
    rw [Command.taskEvents, List.append_nil]
    exact h.congr rfl rfl rfl
  | turn t => exact h.turn hw t

theorem Told.after (h : Told es c) (commands : List Command) :
    Told (es ++ c.taskEvents hw commands) (c.after hw commands) := by
  induction commands generalizing c es with
  | nil =>
    rw [taskEvents, List.append_nil]
    exact h
  | cons command commands ih =>
    rw [taskEvents, ← List.append_assoc]
    exact ih (h.perform hw command)

theorem told_ofHardware (s : σ) (settings : Settings) :
    Told [] (ofHardware s settings : Console σ ι) where
  reports := rfl
  pending := rfl
  running t ht := by cases t <;> cases ht
  faults before t e h := by simp at h

/-- Every fault of a task is reported by the next operation that waits for the tasks, and never
again. -/
theorem faults_are_reported_once (hw : Hardware σ ι) (s : σ) (settings : Settings) :
    let console : Console σ ι := ofHardware s settings
    (∀ history (command : Command),
      let c := console.after hw history
      let es := console.taskEvents hw history
      c.reports = reportsOf 0 es ∧ FaultsOnlyRunning es ∧
      (command.perform hw c).2.reports =
        c.reports ++ reportsOf (pendingAfter 0 es) (command.taskEvents hw c)) ∧
    ∀ history,
      let c := console.after hw (history ++ [.drop])
      let es := console.taskEvents hw (history ++ [.drop])
      c.reports.count .failure = es.countP TaskEvent.isFault ∧
      c.reports.count .summary = es.count (.joined true) := by
  intro console
  have htold (history : List Command) :
      Told (console.taskEvents hw history) (console.after hw history) :=
    (told_ofHardware s settings).after hw history
  refine ⟨fun history command => ?_, fun history => ?_⟩
  · intro c es
    have hc : Told es c := htold history
    refine ⟨hc.reports, hc.faults, ?_⟩
    rw [(hc.perform hw command).reports, hc.reports, TaskEvent.reportsOf_append]
  · intro c es
    have hc : Told es c := htold _
    -- The drop leaves no task behind, so nothing is left to report.
    have hdropped : c = (console.after hw history).shutdown hw := List.foldl_append
    have hidle : c.Idle := hdropped ▸ idle_shutdown hw _
    have hnone : pendingAfter 0 es = 0 := hc.pending.symm.trans hidle.failures
    have hcount := TaskEvent.count_failure_reportsOf 0 es
    rw [hc.reports, TaskEvent.count_summary_reportsOf]
    rw [hnone] at hcount
    exact ⟨by omega, rfl⟩

theorem shutdownEvents_faultingBoard {d : Console TestBoard TestBoard.Instruction}
    {e : Fault} {line : Fin scanlines × Duration} (failed : d.processorTask = some (.failed e))
    (on : d.powered = true) (lines : d.scanlineTask = some (.ready line)) :
    (d.plan [.scanlines]).shutdownEvents faultingBoard = [.joined true] := by
  obtain ⟨⟨hardware, registers, powered, cycles, statistics⟩, settings, p, s, journal, now,
    lastTurns⟩ := d
  cases failed
  cases on
  cases lines
  rfl

theorem turnEvents_faultingBoard {d : Console TestBoard TestBoard.Instruction}
    {accumulator : UInt64} (ready : d.processorTask = some (.ready accumulator))
    (on : d.powered = true) :
    (d.processorTurn faultingBoard).powered = true ∧
      d.turnEvents faultingBoard .processor =
        [.faulted .processor (.hardware "no interrupt controller")] := by
  obtain ⟨⟨hardware, registers, powered, cycles, statistics⟩, settings, p, s, journal, now,
    lastTurns⟩ := d
  cases ready
  cases on
  exact ⟨rfl, rfl⟩

theorem taskEvents_faultingBoard {d : Console TestBoard TestBoard.Instruction}
    {accumulator : UInt64} {line : Fin scanlines × Duration}
    (ready : d.processorTask = some (.ready accumulator)) (on : d.powered = true)
    (lines : d.scanlineTask = some (.ready line)) (hgenuine : d.Genuine faultingBoard) :
    d.taskEvents faultingBoard [.turn .processor, .plan [.scanlines], .shutdown, .drop] =
      [.faulted .processor (.hardware "no interrupt controller"), .joined true, .joined false] := by
  let e := (d.processorTurn faultingBoard).plan [.scanlines]
  obtain ⟨hon, hturn⟩ := turnEvents_faultingBoard ready on
  have hfailed := processorTurn_faultingBoard ready on
  have hlines : e.scanlineTask = some (.ready line) :=
    (processorTurn_spec faultingBoard d).scanlineTask_eq.trans lines
  have hshutdown : e.shutdownEvents faultingBoard = [.joined true] :=
    shutdownEvents_faultingBoard hfailed hon hlines
  have he : e.Genuine faultingBoard := hgenuine.processorTurn.of_tasks rfl rfl
  have hoff := off_shutdown faultingBoard_keepsOff he
  have hdrop := (idle_shutdown faultingBoard e).ended.shutdownEvents faultingBoard
  rw [hoff] at hdrop
  change d.turnEvents faultingBoard .processor ++ (e.shutdownEvents faultingBoard ++
    ((e.shutdown faultingBoard).shutdownEvents faultingBoard ++ [])) = _
  rw [hturn, hshutdown, hdrop]
  rfl

theorem fault_of_faultingBoard_is_reported_once :
    let history : List Command :=
      [.powerOn .ntsc {}, .turn .processor, .plan [.scanlines], .shutdown]
    let c : Console TestBoard TestBoard.Instruction :=
      (ofHardware {} {}).after faultingBoard (history ++ [.drop])
    c.reports.count .failure = 1 ∧ c.reports.count .summary = 1 := by
  intro history c
  let console : Console TestBoard TestBoard.Instruction := ofHardware {} {}
  obtain ⟨d, hon, hpower⟩ := powerOn_faultingBoard .ntsc console
  have hfresh : console.Genuine faultingBoard := Idle.genuine _ ⟨rfl, rfl⟩
  have hgenuine := genuine_of_powerOn hfresh hon
  obtain ⟨e, hboot, -, rfl⟩ := (powerOn_ok_iff _ _ _ _).mp hon
  have hfirst : console.powerOnEvents faultingBoard .ntsc {} =
      [.joined false, .started .processor, .started .scanlines] := by
    unfold powerOnEvents
    rw [hboot]
    rfl
  have hrest := taskEvents_faultingBoard (d := e.spawned faultingBoard {}) rfl hpower rfl hgenuine
  have hevents : console.taskEvents faultingBoard (history ++ [.drop]) =
      [.joined false, .started .processor, .started .scanlines] ++
        [.faulted .processor (.hardware "no interrupt controller"), .joined true,
          .joined false] := by
    rw [← hrest, ← hfirst, ← perform_of_powerOn hon]
    rfl
  obtain ⟨hfailures, hsummaries⟩ :=
    (faults_are_reported_once faultingBoard ({} : TestBoard) {}).2 history
  rw [hevents] at hfailures hsummaries
  exact ⟨hfailures, hsummaries⟩

end Console

end ConsoleCore
