import ConsoleCore.Console.Power
import ConsoleCore.Scripted.Board

/-!
# Sessions on the scripted board

How the host schedules the tasks of a console over the scripted board: each one runs to its ending
first, and then both endings strike.
-/

namespace ConsoleCore.Scripted

/-- Enough turns for any program to come to its ending. -/
def programTurns : Nat := Board.instructionLimit + 1

/-- Enough turns for both endings to strike, whichever frees the other. -/
def endingTurns : List Turn :=
  [.processor, .processor, .scanlines, .scanlines, .processor, .processor]

/-- Gives both tasks turns until nothing moves any more. -/
def settle (hw : Hardware Board Instruction) (c : Console Board Instruction) :
    Console Board Instruction :=
  let lines := c.rig.hardware.videoEndsAt + 1
  let c := c.processorUntilArrived hw programTurns
  (c.scanlinesUntilArrived hw lines).turns hw endingTurns

def outOfThreads : String := "Resource temporarily unavailable (os error 11)"

/-- The host that refuses the n-th thread, counted from one. The processor's task comes to its
ending before the second thread is asked for. -/
def hostRefusing : Nat → Host
  | 1 => { processorRefusal := some outOfThreads }
  | 2 => { headStart := programTurns + 2, scanlineRefusal := some outOfThreads }
  | _ => {}

/-- Which thread made a call, in a session where the caller does no instructions. -/
def Event.speaker : Event → Speaker
  | scanline _ | pollScanline _ => .scanlines
  | init _ | cop0 .. | cop1 .. => .caller
  | _ => .processor

end ConsoleCore.Scripted
