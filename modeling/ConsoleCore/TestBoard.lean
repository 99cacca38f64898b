import ConsoleCore.Hardware
import ConsoleCore.SparseMemory

/-!
# The test board

Stand-in hardware for tests of the core. Its instructions use a toy encoding:

| bits    | meaning                                               |
|---------|-------------------------------------------------------|
| [31:24] | 1 loads an immediate, 2 writes Wired, others do nothing |
| [20:16] | target general purpose register                       |
| [15:0]  | immediate value                                       |

Every instruction moves the program counter on by four bytes and takes the same number of cycles.
The board counts the calls of the core.
-/

namespace ConsoleCore

structure TestBoard where
  memory : SparseMemory := {}
  cost : UInt64 := 1
  /-- Where the next poll for interrupts jumps to, if it does. -/
  jump : Option UInt64 := none
  polls : Nat := 0
  inits : Nat := 0
  coprocessorCalls : Nat := 0
  /-- The lines that were written, and those that were polled. -/
  linesWritten : List UInt32 := []
  linesPolled : List UInt32 := []

namespace TestBoard

/-! ## Instructions -/

def nop : UInt32 := 0

def loadImmediate (register : UInt32) (imm : UInt16) : UInt32 :=
  (0x01000000 : UInt32) ||| ((register &&& 0x1f) <<< 16) ||| imm.toUInt32

def writeWired (imm : UInt16) : UInt32 := (0x02000000 : UInt32) ||| imm.toUInt32

structure Instruction where
  opcode : UInt32
  cost : UInt64
  deriving DecidableEq, Repr

/-- What an instruction does to the registers. -/
def Instruction.apply (i : Instruction) (r : Registers) : Registers :=
  let register := ((i.opcode >>> 16) &&& 0x1f).toNat
  let imm := (i.opcode &&& 0xffff).toUInt64
  let r :=
    if i.opcode >>> 24 = 1 then r.setGpr register imm
    else if i.opcode >>> 24 = 2 then r.setCop0 Cop0.wired imm
    else r
  r.setPc (r.pc + 4)

/-! ## Memory -/

def memoryAccess : Memory TestBoard where
  readByte b address := b.memory.read address
  writeByte b address byte := { b with memory := b.memory.write address byte }

/-- Places bytes in memory. -/
def load (b : TestBoard) (address : UInt32) (data : List UInt8) : TestBoard :=
  memoryAccess.load b address data

/-- Places instructions in memory. -/
def program (b : TestBoard) (address : UInt32) (code : List UInt32) : TestBoard :=
  memoryAccess.loadWords b address code

/-! ## Hooks -/

def onBoard (f : TestBoard → TestBoard) : Hook TestBoard Unit :=
  modify fun s => { s with hardware := f s.hardware }

/-- Takes a pending jump. -/
def poll : Hook TestBoard Unit := do
  onBoard fun b => { b with polls := b.polls + 1 }
  if let some target := (← get).hardware.jump then
    onBoard fun b => { b with jump := none }
    modify fun s => { s with registers := s.registers.setPc target }

def countCoprocessorCall : Hook TestBoard Unit :=
  onBoard fun b => { b with coprocessorCalls := b.coprocessorCalls + 1 }

def hardware : Hardware TestBoard Instruction where
  toMemory := memoryAccess
  fetch address := return memoryAccess.readWord (← get).hardware address
  poll _ := poll
  decode opcode _ := return { opcode, cost := (← get).hardware.cost }
  execute i := do
    modify fun s => { s with registers := i.apply s.registers }
    return none
  cycles i b := (i.cost, b)
  writeScanline line := onBoard fun b => { b with linesWritten := b.linesWritten ++ [line] }
  pollScanline line := do
    onBoard fun b => { b with linesPolled := b.linesPolled ++ [line] }
    return none
  init := onBoard fun b => { b with inits := b.inits + 1 }
  powerOnCop0 := countCoprocessorCall
  powerOnCop1 := countCoprocessorCall

end TestBoard

end ConsoleCore
