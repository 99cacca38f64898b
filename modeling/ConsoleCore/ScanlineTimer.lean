import ConsoleCore.Hardware
import ConsoleCore.Journal

/-!
# The scanline timer

Walks the video interface through the lines of a frame and gives the interrupt controller a chance
to raise the video interrupt on each. The host's clock paces it, not the processor's cycles.
-/

namespace ConsoleCore

/-- The lines of a frame, by NTSC timing for every standard. -/
def scanlines : Nat := 525

structure ScanlineTimer (σ : Type) extends Rig σ where
  /-- The line that the next tick reports. -/
  line : Fin scanlines
  period : Duration

namespace ScanlineTimer

variable {σ ι α : Type}

abbrev Action (σ α : Type) := EStateM Fault (ScanlineTimer σ) α

def call (h : Hook σ α) : Action σ α
  | ⟨rig, line, period⟩ =>
    match rig.call h with
    | .ok a rig => .ok a ⟨rig, line, period⟩
    | .error e rig => .error e ⟨rig, line, period⟩

def firstLine : Fin scanlines := ⟨0, by decide⟩

def nextLine (line : Fin scanlines) : Fin scanlines :=
  if h : line.val + 1 = scanlines then firstLine
  else ⟨line.val + 1, Nat.lt_of_le_of_ne line.isLt h⟩

def moveOn (t : ScanlineTimer σ) : ScanlineTimer σ := { t with line := nextLine t.line }

/-! ## One tick -/

/-- Reports the current line and moves on to the next. A tick that faults does not count. -/
def tick (hw : Hardware σ ι) : Action σ Unit := do
  let line := UInt32.ofNat (← get).line
  call (hw.writeScanline line)
  call (Hook.withoutWaiting (hw.pollScanline line))
  modify moveOn

def ticks (hw : Hardware σ ι) : Nat → Action σ Unit
  | 0 => return
  | n + 1 => do
    tick hw
    ticks hw n

/-- Ticks a copy of the timer. The hardware sees it, the timer itself stays at its line. -/
def tickCopy (hw : Hardware σ ι) : Action σ Unit := fun t =>
  match tick hw t with
  | .ok _ t' => .ok () { t' with line := t.line }
  | .error e t' => .error e { t' with line := t.line }

/-! ## In a task of its own

There a tick can wait in the middle. The answer of both parts is what is left to do.
-/

/-- One tick, or its first part if the hardware waits. -/
def advance (hw : Hardware σ ι) : Action σ (Option (Hold σ)) := do
  let line := UInt32.ofNat (← get).line
  call (hw.writeScanline line)
  match ← call (hw.pollScanline line) with
  | some hold => return some hold
  | none =>
    modify moveOn
    return none

def resume (hold : Hold σ) : Action σ (Option (Hold σ)) := do
  call hold.resume
  modify moveOn
  return none

/-! ## Running -/

/-- Ticks for as long as the power is on, but at most `budget` times. The answer tells whether the
power went off within the budget. -/
def tickWhilePowered (hw : Hardware σ ι) : Nat → Action σ Bool
  | 0 => return !(← get).machine.powered
  | budget + 1 => do
    if (← get).machine.powered then
      tick hw
      tickWhilePowered hw budget
    else return true

/-- Runs until the power is off. The answer is what the run leaves in the journal, if it came to
its end. -/
def run (hw : Hardware σ ι) (budget : Nat) : Action σ (Option Message) := do
  if ← tickWhilePowered hw budget then
    return some (.scanlinesStopped (← get).line)
  else return none

end ScanlineTimer

end ConsoleCore
