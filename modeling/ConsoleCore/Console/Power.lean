import ConsoleCore.BootState
import ConsoleCore.Console.Turns

/-!
# Power

Switching the console off, putting it into its boot state, and switching it on.
-/

namespace ConsoleCore

/-- The host gave no thread to a task. -/
structure SpawnFailure where
  task : String
  cause : String
  deriving DecidableEq, Repr

def SpawnFailure.message (e : SpawnFailure) : String :=
  s!"Could not start the {e.task} task: {e.cause}"

/-- How the host takes a request to start the two tasks. A refusal comes with its cause. -/
structure Host where
  processorRefusal : Option String := none
  /-- The turns that the processor's task gets before the second thread is asked for. -/
  headStart : Nat := 0
  scanlineRefusal : Option String := none

def Host.firstTurns (host : Host) : List Turn := List.replicate host.headStart .processor

namespace Console

variable {σ ι : Type}

/-! ## Off -/

/-- After the turns that the host has in store for both tasks, each gets two more. One finishes a
call that waits, and the next one leaves the loop. A task that finds the power on again is waited
for longer, and `lastTurns` has to say for how long. -/
def joiningTurns (c : Console σ ι) : List Turn :=
  c.lastTurns ++ [.processor, .processor, .scanlines, .scanlines]

def windDown (hw : Hardware σ ι) (c : Console σ ι) : Console σ ι := c.turns hw c.joiningTurns

def collectTasks (c : Console σ ι) : Console σ ι :=
  let failures := [Task.hasFailed c.processorTask, Task.hasFailed c.scanlineTask].filter id
  let c := { c with processorTask := none, scanlineTask := none }
  c.sayAll .caller (failures.map fun _ => .taskFailed)

def summary (c : Console σ ι) : Message :=
  let statistics := c.machine.statistics
  .poweredOff statistics.instructions c.machine.cycles (statistics.rate c.now)

/-- Switches the power off and waits for both tasks. The registers stay as the processor left
them. -/
def shutdown (hw : Hardware σ ι) (c : Console σ ι) : Console σ ι :=
  let running := c.powered
  let c := ((c.setPowered false).windDown hw).collectTasks
  if running then c.say .caller c.summary else c

/-! ## The boot state -/

/-- Takes the fingerprint of the cartridge in memory, and speaks up if it is unknown. -/
def identify (hw : Hardware σ ι) : Action σ ι Fingerprint := do
  let print := Fingerprint.ofMemory (hw.readByte (← get).rig.hardware)
  modify (sayAll .caller print.remarks)
  return print

/-- Brings a console to its boot state without starting it. The answer is the seed that the boot
code gets. -/
def reset (hw : Hardware σ ι) (tv : TvStandard) : Action σ ι UInt32 := do
  modify (shutdown hw)
  modify (onRegisters fun _ => Registers.atReset)
  let print ← identify hw
  modify (sayAll .caller (BootState.fixedRegisters.map fun (i, v) => .bootRegister i v))
  let settings := (← get).settings
  modify (onRegisters (·.writeAll (BootState.writes settings tv print.seed)))
  modify (say .caller (.copyingBootCode BootState.length BootState.source BootState.target))
  modify (onHardware fun s => hw.copyRegion s BootState.source BootState.target BootState.length)
  call hw.powerOnCop0
  call hw.powerOnCop1
  modify (say .caller (.resetDone tv print.chip? print.seed))
  return print.seed

/-! ## On -/

/-- Asks for the scanline timer's thread. A refusal switches everything off again. -/
def spawnScanlines (hw : Hardware σ ι) (host : Host) : Action σ ι (Except SpawnFailure Unit) := do
  match host.scanlineRefusal with
  | some cause =>
    modify (shutdown hw)
    return .error { task := "video timer", cause }
  | none =>
    modify startScanlines
    return .ok ()

/-- Asks for the threads of both tasks, the processor's first. -/
def spawnTasks (hw : Hardware σ ι) (host : Host) : Action σ ι (Except SpawnFailure Unit) := do
  match host.processorRefusal with
  | some cause =>
    modify (setPowered false)
    return .error { task := "CPU", cause }
  | none =>
    modify startProcessor
    modify (turns hw host.firstTurns)
    spawnScanlines hw host

/-- Switches the console on and starts both tasks. One that is on already is switched off and
brought back up from scratch. -/
def powerOn (hw : Hardware σ ι) (tv : TvStandard) (host : Host) :
    Action σ ι (Except SpawnFailure Unit) := do
  modify fun c => if c.powered then c.say .caller .restarting else c
  let _ ← reset hw tv
  modify (setPowered true)
  call hw.init
  spawnTasks hw host

end Console

end ConsoleCore
