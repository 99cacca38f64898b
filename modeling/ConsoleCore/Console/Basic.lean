import ConsoleCore.Console.Task

/-!
# The console

The hardware, the machine, the settings and the tasks of the current power session, with the
journal of everything that was said. `now` is the reading of the host's clock, in nanoseconds.
`lastTurns` are the turns that the host has in store for the tasks when they are waited for.
-/

namespace ConsoleCore

structure Console (σ ι : Type) where
  rig : Rig σ
  settings : Settings := {}
  processorTask : Option (ProcessorTask σ ι) := none
  scanlineTask : Option (ScanlineTask σ) := none
  journal : List JournalEntry := []
  now : Nat := 0
  lastTurns : List Turn := []

namespace Console

variable {σ ι α : Type}

/-- An operation on the caller's thread. It can fault inside a hook, and then keeps what was done
until then. -/
abbrev Action (σ ι α : Type) := EStateM Fault (Console σ ι) α

/-- A console that was never on. -/
def ofHardware (hardware : σ) (settings : Settings) : Console σ ι where
  rig := { hardware, machine := {} }
  settings

def machine (c : Console σ ι) : Machine := c.rig.machine

def powered (c : Console σ ι) : Bool := c.machine.powered

def onMachine (f : Machine → Machine) : Console σ ι → Console σ ι
  | ⟨⟨hardware, machine⟩, settings, processorTask, scanlineTask, journal, now, lastTurns⟩ =>
    ⟨⟨hardware, f machine⟩, settings, processorTask, scanlineTask, journal, now, lastTurns⟩

def onHardware (f : σ → σ) : Console σ ι → Console σ ι
  | ⟨⟨hardware, machine⟩, settings, processorTask, scanlineTask, journal, now, lastTurns⟩ =>
    ⟨⟨f hardware, machine⟩, settings, processorTask, scanlineTask, journal, now, lastTurns⟩

def setPowered (on : Bool) : Console σ ι → Console σ ι := onMachine (·.setPowered on)

def onRegisters (f : Registers → Registers) : Console σ ι → Console σ ι :=
  onMachine fun m => { m with registers := f m.registers }

def onStatistics (f : Statistics → Statistics) : Console σ ι → Console σ ι :=
  onMachine fun m => { m with statistics := f m.statistics }

def say (speaker : Speaker) (message : Message) (c : Console σ ι) : Console σ ι :=
  { c with journal := c.journal ++ [{ speaker, message }] }

def sayAll (speaker : Speaker) (messages : List Message) (c : Console σ ι) : Console σ ι :=
  { c with journal := c.journal ++ messages.map fun message => { speaker, message } }

def pass (nanoseconds : Nat) (c : Console σ ι) : Console σ ι :=
  { c with now := c.now + nanoseconds }

def plan (lastTurns : List Turn) (c : Console σ ι) : Console σ ι := { c with lastTurns }

def call (h : Hook σ α) : Action σ ι α
  | ⟨rig, settings, processorTask, scanlineTask, journal, now, lastTurns⟩ =>
    match rig.call h with
    | .ok a rig => .ok a ⟨rig, settings, processorTask, scanlineTask, journal, now, lastTurns⟩
    | .error e rig =>
      .error e ⟨rig, settings, processorTask, scanlineTask, journal, now, lastTurns⟩

/-- Lets the caller's own processor work on the rig of the console, and answers with its
accumulator, also after a fault. -/
def withProcessor (act : Processor.Action σ Unit) (accumulator : UInt64) :
    Console σ ι → Except Fault Unit × UInt64 × Console σ ι
  | ⟨rig, settings, processorTask, scanlineTask, journal, now, lastTurns⟩ =>
    match act ⟨rig, accumulator⟩ with
    | .ok _ p =>
      (.ok (), p.accumulator,
        ⟨p.toRig, settings, processorTask, scanlineTask, journal, now, lastTurns⟩)
    | .error e p =>
      (.error e, p.accumulator,
        ⟨p.toRig, settings, processorTask, scanlineTask, journal, now, lastTurns⟩)

end Console

end ConsoleCore
