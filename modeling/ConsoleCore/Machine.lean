import ConsoleCore.Registers
import ConsoleCore.Statistics

/-!
# The machine

The state that the processor and the scanline timer share.
-/

namespace ConsoleCore

structure Machine where
  registers : Registers := {}
  /-- Both tasks run for as long as this holds. -/
  powered : Bool := false
  /-- Cycles since the first power on, modulo 2^64. Nothing sets them back. -/
  cycles : UInt64 := 0
  statistics : Statistics := {}
  deriving DecidableEq

namespace Machine

def setPowered (m : Machine) (on : Bool) : Machine := { m with powered := on }

def write (m : Machine) (ws : List RegisterWrite) : Machine :=
  { m with registers := m.registers.writeAll ws }

end Machine

end ConsoleCore
