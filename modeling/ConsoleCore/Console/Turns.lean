import ConsoleCore.Console.Basic

/-!
# Turns

What a task does when the host gives it a turn. Any interleaving of the two tasks is a list of
turns.
-/

namespace ConsoleCore.Console

variable {σ ι : Type}

/-! ## The processor's task -/

/-- The processor starts with an empty accumulator, and the stopwatch starts with it. -/
def startProcessor (c : Console σ ι) : Console σ ι :=
  { c.onStatistics (·.start c.now) with processorTask := some (.ready 0) }

def runProcessor (act : Processor.Action σ (Option (Processor.InFlight ι × Hold σ)))
    (accumulator : UInt64) : Console σ ι → Console σ ι
  | ⟨rig, settings, _, scanlineTask, journal, now, lastTurns⟩ =>
    match act ⟨rig, accumulator⟩ with
    | .ok none p =>
      ⟨p.toRig, settings, some (.ready p.accumulator), scanlineTask, journal, now, lastTurns⟩
    | .ok (some (f, hold)) p =>
      ⟨p.toRig, settings, some (.held p.accumulator f hold), scanlineTask, journal, now, lastTurns⟩
    | .error e p => ⟨p.toRig, settings, some (.failed e), scanlineTask, journal, now, lastTurns⟩

/-- The task found the power off. -/
def endProcessor (c : Console σ ι) : Console σ ι :=
  let c := c.onStatistics (·.stop c.now)
  let c := c.say .processor (.processorStopped c.machine.statistics.instructions)
  { c with processorTask := some .stopped }

def processorTurn (hw : Hardware σ ι) (c : Console σ ι) : Console σ ι :=
  match c.processorTask with
  | some (.ready accumulator) =>
    if c.powered then c.runProcessor (Processor.advance hw) accumulator else c.endProcessor
  | some (.held accumulator f hold) =>
    if hold.wait.over c.powered (Task.arrived c.scanlineTask) then
      c.runProcessor (Processor.resume hw f hold) accumulator
    else c
  | _ => c

/-! ## The scanline timer's task -/

/-- Every session starts at the first line. -/
def startScanlines (c : Console σ ι) : Console σ ι :=
  { c with scanlineTask := some (.ready (ScanlineTimer.firstLine, c.settings.scanlinePeriod)) }

def runScanlines (act : ScanlineTimer.Action σ (Option (Hold σ)))
    (line : Fin scanlines) (period : Duration) : Console σ ι → Console σ ι
  | ⟨rig, settings, processorTask, _, journal, now, lastTurns⟩ =>
    match act ⟨rig, line, period⟩ with
    | .ok none t =>
      let task := .ready (t.line, t.period)
      ⟨t.toRig, settings, processorTask, some task, journal, now, lastTurns⟩
    | .ok (some hold) t =>
      let task := .held (t.line, t.period) () hold
      ⟨t.toRig, settings, processorTask, some task, journal, now, lastTurns⟩
    | .error e t => ⟨t.toRig, settings, processorTask, some (.failed e), journal, now, lastTurns⟩

/-- The task found the power off. -/
def endScanlines (line : Fin scanlines) (c : Console σ ι) : Console σ ι :=
  { c.say .scanlines (.scanlinesStopped line) with scanlineTask := some .stopped }

def scanlineTurn (hw : Hardware σ ι) (c : Console σ ι) : Console σ ι :=
  match c.scanlineTask with
  | some (.ready (line, period)) =>
    if c.powered then c.runScanlines (ScanlineTimer.advance hw) line period
    else c.endScanlines line
  | some (.held (line, period) _ hold) =>
    if hold.wait.over c.powered (Task.arrived c.processorTask) then
      c.runScanlines (ScanlineTimer.resume hold) line period
    else c
  | _ => c

/-! ## Schedules -/

def turn (hw : Hardware σ ι) (c : Console σ ι) : Turn → Console σ ι
  | .processor => c.processorTurn hw
  | .scanlines => c.scanlineTurn hw

def turns (hw : Hardware σ ι) (schedule : List Turn) (c : Console σ ι) : Console σ ι :=
  schedule.foldl (turn hw) c

/-- Gives the processor's task turns until it need not be waited for, but at most `budget`. -/
def processorUntilArrived (hw : Hardware σ ι) : Nat → Console σ ι → Console σ ι
  | 0, c => c
  | budget + 1, c =>
    if Task.arrived c.processorTask then c
    else processorUntilArrived hw budget (c.processorTurn hw)

def scanlinesUntilArrived (hw : Hardware σ ι) : Nat → Console σ ι → Console σ ι
  | 0, c => c
  | budget + 1, c =>
    if Task.arrived c.scanlineTask then c
    else scanlinesUntilArrived hw budget (c.scanlineTurn hw)

end ConsoleCore.Console
