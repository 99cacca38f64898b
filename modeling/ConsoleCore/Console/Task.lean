import ConsoleCore.Processor
import ConsoleCore.ScanlineTimer

/-!
# Tasks

While the console is on, the processor and the scanline timer each run in a task. The host gives
them turns in any order. A turn does one instruction or one line, up to where the hardware waits.
-/

namespace ConsoleCore

/-- A task by where it stands. At the head of its loop it keeps an `α`, and for a call that waits
also a `β`. -/
inductive Task (σ α β : Type) where
  | ready (state : α)
  | held (state : α) (pending : β) (hold : Hold σ)
  /-- It found the power off. -/
  | stopped
  | failed (fault : Fault)

namespace Task

variable {σ α β : Type}

/-- Whether the other task need not wait for this one. -/
def arrived : Option (Task σ α β) → Bool
  | some (ready _) => false
  | _ => true

def hasFailed : Option (Task σ α β) → Bool
  | some (failed _) => true
  | _ => false

end Task

abbrev ProcessorTask (σ ι : Type) := Task σ UInt64 (Processor.InFlight ι)

abbrev ScanlineTask (σ : Type) := Task σ (Fin scanlines × Duration) Unit

/-- Which task the host lets go on. -/
inductive Turn where
  | processor
  | scanlines
  deriving DecidableEq, Repr

end ConsoleCore
