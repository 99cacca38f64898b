import ConsoleCore.Hardware
import ConsoleCore.Journal

/-!
# The processor

The interpreter loop of the VR4300. It fetches an opcode, lets the interrupt controller look at
the registers, has the hardware decode and execute the instruction, and then does the bookkeeping
of the Count and Random registers that every instruction implies.
-/

namespace ConsoleCore

structure Processor (σ : Type) extends Rig σ where
  /-- The cycles that Count is derived from. Unlike the machine's cycle count this one starts over
  from zero when it has reached its limit. -/
  accumulator : UInt64 := 0

namespace Processor

variable {σ ι α : Type}

abbrev Action (σ α : Type) := EStateM Fault (Processor σ) α

/-- The accumulator starts over from here on. -/
def accumulatorLimit : UInt64 := 0xffffffff

def call (h : Hook σ α) : Action σ α
  | ⟨rig, accumulator⟩ =>
    match rig.call h with
    | .ok a rig => .ok a ⟨rig, accumulator⟩
    | .error e rig => .error e ⟨rig, accumulator⟩

def registers (p : Processor σ) : Registers := p.machine.registers

def onRegisters (f : Registers → Registers) : Processor σ → Processor σ
  | ⟨⟨hardware, ⟨registers, powered, cycles, statistics⟩⟩, accumulator⟩ =>
    ⟨⟨hardware, ⟨f registers, powered, cycles, statistics⟩⟩, accumulator⟩

def onStatistics (f : Statistics → Statistics) : Processor σ → Processor σ
  | ⟨⟨hardware, ⟨registers, powered, cycles, statistics⟩⟩, accumulator⟩ =>
    ⟨⟨hardware, ⟨registers, powered, cycles, f statistics⟩⟩, accumulator⟩

/-! ## One instruction -/

/-- An instruction that was decoded and is not complete yet. -/
structure InFlight (ι : Type) where
  instruction : ι
  /-- Wired, as it was before the instruction ran. -/
  wired : UInt64

/-- The accumulator and Count start over together. -/
def startOver (p : Processor σ) : Processor σ :=
  if p.accumulator ≥ accumulatorLimit then
    { p.onRegisters (·.setCop0 Cop0.count 0) with accumulator := 0 }
  else p

/-- Everything up to the execution of an instruction. -/
def dispatch (hw : Hardware σ ι) (opcode : UInt32) (delaySlot : Bool) : Action σ (InFlight ι) := do
  call (hw.poll delaySlot)
  modify (·.onRegisters Registers.clearZero)
  modify startOver
  let instruction ← call (hw.decode opcode { kernel := true, delaySlot })
  return { instruction, wired := (← get).registers.cop0 Cop0.wired }

/-- The value of Random after an instruction. It counts down to Wired and is reloaded below that,
at zero, and whenever the instruction changed Wired. -/
def nextRandom (random wiredBefore wired : UInt64) : UInt64 :=
  let next := random - 1
  if next < wired ∨ next = 0 ∨ wired ≠ wiredBefore then Cop0.randomMax else next

def updateTimers (accumulator wiredBefore : UInt64) (r : Registers) : Registers :=
  let r := r.setCop0 Cop0.count (accumulator >>> 1)
  r.setCop0 Cop0.random (nextRandom (r.cop0 Cop0.random) wiredBefore (r.cop0 Cop0.wired))

def askCycles (hw : Hardware σ ι) (instruction : ι) : Action σ UInt64
  | ⟨⟨hardware, machine⟩, accumulator⟩ =>
    let (cost, hardware) := hw.cycles instruction hardware
    .ok cost ⟨⟨hardware, machine⟩, accumulator⟩

def addCycles (cost : UInt64) (p : Processor σ) : Processor σ :=
  { p with machine := { p.machine with cycles := p.machine.cycles + cost } }

/-- The accumulator grows by `cost` and must not leave its 64 bits. -/
def accumulate (cost : UInt64) : Action σ Unit := fun p =>
  if p.accumulator.toNat + cost.toNat < UInt64.size then
    .ok () { p with accumulator := p.accumulator + cost }
  else .error .accumulatorOverflow p

/-- The bookkeeping after an instruction was executed. -/
def retire (hw : Hardware σ ι) (f : InFlight ι) : Action σ Unit := do
  let cost ← askCycles hw f.instruction
  modify (addCycles cost)
  let total := (← get).machine.cycles
  accumulate cost
  let accumulator := (← get).accumulator
  modify (·.onRegisters (updateTimers accumulator f.wired))
  modify (·.onStatistics (·.retire total))

/-- Interprets one opcode, which may sit in the delay slot of a branch. -/
def interpret (hw : Hardware σ ι) (opcode : UInt32) (delaySlot : Bool) : Action σ Unit := do
  let f ← dispatch hw opcode delaySlot
  call (Hook.withoutWaiting (hw.execute f.instruction))
  retire hw f

def fetch (hw : Hardware σ ι) : Action σ UInt32 := do
  call (hw.fetch (← get).registers.pc.toUInt32)

def step (hw : Hardware σ ι) : Action σ Unit := do
  interpret hw (← fetch hw) false

def steps (hw : Hardware σ ι) : Nat → Action σ Unit
  | 0 => return
  | n + 1 => do
    step hw
    steps hw n

/-! ## In a task of its own

There an instruction can wait in the middle. The answer of both parts is what is left to do.
-/

/-- One step, or its first part if the instruction waits. -/
def advance (hw : Hardware σ ι) : Action σ (Option (InFlight ι × Hold σ)) := do
  let f ← dispatch hw (← fetch hw) false
  match ← call (hw.execute f.instruction) with
  | some hold => return some (f, hold)
  | none =>
    retire hw f
    return none

def resume (hw : Hardware σ ι) (f : InFlight ι) (hold : Hold σ) :
    Action σ (Option (InFlight ι × Hold σ)) := do
  call hold.resume
  retire hw f
  return none

/-! ## Running -/

/-- Steps for as long as the power is on, but at most `budget` times. The answer tells whether
the power went off within the budget. -/
def stepWhilePowered (hw : Hardware σ ι) : Nat → Action σ Bool
  | 0 => return !(← get).machine.powered
  | budget + 1 => do
    if (← get).machine.powered then
      step hw
      stepWhilePowered hw budget
    else return true

/-- Runs until the power is off, with the stopwatch going. A run that a fault ends leaves the
stopwatch as it is. The answer is what the run leaves in the journal, if it came to its end. -/
def run (hw : Hardware σ ι) (budget startedAt endedAt : Nat) : Action σ (Option Message) := do
  modify (·.onStatistics (·.start startedAt))
  if ← stepWhilePowered hw budget then
    modify (·.onStatistics (·.stop endedAt))
    return some (.processorStopped (← get).machine.statistics.instructions)
  else return none

end Processor

end ConsoleCore
