import ConsoleCore.Stopwatch

/-!
# Execution statistics

Instructions, cycles and time, for rate displays. All of it adds up over every power session: the
stopwatch runs while the processor does, and stopping it keeps what it has measured.
-/

namespace ConsoleCore

structure Statistics where
  /-- Instructions that were completed. -/
  instructions : UInt64 := 0
  /-- The machine's cycle count, as of the last completed instruction. -/
  cycles : UInt64 := 0
  stopwatch : Stopwatch := {}
  deriving DecidableEq, Repr

namespace Statistics

/-- One more instruction is complete, and brought the cycle count up to `total`. -/
def retire (s : Statistics) (total : UInt64) : Statistics :=
  { s with instructions := s.instructions + 1, cycles := total }

def start (s : Statistics) (now : Nat) : Statistics :=
  { s with stopwatch := s.stopwatch.start now }

def stop (s : Statistics) (now : Nat) : Statistics :=
  { s with stopwatch := s.stopwatch.stop now }

def elapsed (s : Statistics) (now : Nat) : Nat := s.stopwatch.elapsed now

/-- The rate of the processor over every run, in MHz. It is zero while no time has passed. -/
def rate (s : Statistics) (now : Nat) : Rat :=
  mkRat (s.cycles.toNat * 1000) (s.elapsed now)

@[simp] theorem elapsed_retire (s : Statistics) (total : UInt64) (now : Nat) :
    (s.retire total).elapsed now = s.elapsed now := rfl

end Statistics

end ConsoleCore
