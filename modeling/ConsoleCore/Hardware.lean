import ConsoleCore.Machine
import ConsoleCore.Memory

/-!
# The hardware around the core

The core only sequences instructions. Memory, the instruction set, the interrupt controller and
the coprocessors belong to the hardware, which is a state of some type `σ` and the hooks that the
core calls on it.
-/

namespace ConsoleCore

/-! ## Hooks -/

/-- What stops an instruction or a scanline halfway. -/
inductive Fault where
  | hardware (message : String)
  /-- The processor's cycle accumulator left its 64 bits. -/
  | accumulatorOverflow
  deriving DecidableEq, Repr

def Fault.message : Fault → String
  | hardware message => message
  | accumulatorOverflow => "attempt to add with overflow"

structure Bus (σ : Type) where
  hardware : σ
  registers : Registers
  /-- A hook can set and clear this, as everyone who holds the machine can. -/
  powered : Bool

/-- A call into the hardware. One that faults keeps what it wrote until then. -/
abbrev Hook (σ α : Type) := EStateM Fault (Bus σ) α

inductive Wait where
  /-- The other task waits or has ended, or there is none. -/
  | otherTask
  | powerOff
  deriving DecidableEq, Repr

/-- Whether a wait is over. Without power nothing waits any more. -/
def Wait.over (w : Wait) (powered otherArrived : Bool) : Bool :=
  !powered || (w == .otherTask && otherArrived)

@[simp] theorem Wait.over_of_off (w : Wait) (arrived : Bool) : w.over false arrived = true := rfl

/-- The rest of a call that waits. It only waits in a task of its own: on the caller's thread the
rest follows at once. -/
structure Hold (σ : Type) where
  wait : Wait
  resume : Hook σ Unit

/-- A call on the caller's thread, where nothing waits. -/
def Hook.withoutWaiting {σ : Type} (h : Hook σ (Option (Hold σ))) : Hook σ Unit := do
  match ← h with
  | none => pure ()
  | some hold => hold.resume

/-! ## The interface -/

structure DecodeFlags where
  kernel : Bool
  delaySlot : Bool
  deriving DecidableEq, Repr

/-- Hardware with a state of type `σ` and decoded instructions of type `ι`. -/
structure Hardware (σ ι : Type) extends Memory σ where
  /-- Replace this one if the memory has a faster way than byte by byte. -/
  copyRegion : σ → UInt32 → UInt32 → UInt32 → σ := Memory.copy ⟨readByte, writeByte⟩
  fetch : UInt32 → Hook σ UInt32
  /-- Serves pending interrupts before an instruction. -/
  poll (delaySlot : Bool) : Hook σ Unit
  decode : UInt32 → DecodeFlags → Hook σ ι
  /-- Does what the instruction does, its step of the program counter included. -/
  execute : ι → Hook σ (Option (Hold σ))
  /-- How many cycles the instruction takes. The hardware may note that it was asked. -/
  cycles : ι → σ → UInt64 × σ
  writeScanline : UInt32 → Hook σ Unit
  /-- Raises the video interrupt if it is set to this line. -/
  pollScanline : UInt32 → Hook σ (Option (Hold σ))
  /-- Called on every power on, before the processor starts. -/
  init : Hook σ Unit := pure ()
  powerOnCop0 : Hook σ Unit
  powerOnCop1 : Hook σ Unit

/-! ## Calling a hook -/

/-- Hardware and machine, as the processor and the scanline timer share them. -/
structure Rig (σ : Type) where
  hardware : σ
  machine : Machine

namespace Rig

variable {σ α : Type}

/-- Calls a hook. Of the machine it reaches the registers and the power. -/
def call (h : Hook σ α) : EStateM Fault (Rig σ) α
  | ⟨hardware, ⟨registers, powered, cycles, statistics⟩⟩ =>
    match h ⟨hardware, registers, powered⟩ with
    | .ok a b => .ok a ⟨b.hardware, ⟨b.registers, b.powered, cycles, statistics⟩⟩
    | .error e b => .error e ⟨b.hardware, ⟨b.registers, b.powered, cycles, statistics⟩⟩

end Rig

end ConsoleCore
