import ConsoleCore.Hardware
import ConsoleCore.Scripted.Program
import ConsoleCore.SparseMemory

/-!
# The scripted board

Hardware whose answers are laid down in advance: a sparse memory, the cost of every opcode, the
register writes of the interrupt controller and the coprocessors, and when the video side comes to
its end. It records every call that the core makes.
-/

namespace ConsoleCore.Scripted

/-! ## Calls of the core -/

inductive Event where
  | read32 (address : UInt32)
  | write32 (address value : UInt32)
  | poll (delaySlot : Bool) (pc count : UInt64)
  | decode (opcode : UInt32) (flags : DecodeFlags)
  | execute (opcode : UInt32) (count : UInt64)
  | cycles (cost : UInt64)
  | scanline (line : UInt32)
  | pollScanline (line : UInt32)
  | init (powered : Bool)
  | cop0 (pc random : UInt64) (byte : UInt8)
  | cop1 (pc random : UInt64) (byte : UInt8)
  deriving DecidableEq, Repr

/-! ## The board -/

structure Board where
  memory : SparseMemory := {}
  cost : UInt64 := 1
  /-- Costs by the top byte of the opcode. All others cost `cost`. -/
  costs : List (UInt8 × UInt64) := []
  /-- What the n-th poll writes. -/
  polls : List (Nat × List RegisterWrite) := []
  cop0 : List RegisterWrite := []
  cop1 : List RegisterWrite := []
  /-- How the video side comes to its end. -/
  videoEnding : Ending := .park
  /-- The poll of the video side at which it does, counted from zero. -/
  videoEndsAt : Nat := 0
  polled : Nat := 0
  /-- Instructions since the last `init`. -/
  executed : Nat := 0
  /-- Polls of the video side since the last `init`. -/
  scanlinesPolled : Nat := 0
  /-- The calls so far, the last one first. -/
  trace : List Event := []

structure Instruction where
  opcode : UInt32
  cost : UInt64
  operation : Operation
  deriving DecidableEq, Repr

namespace Board

/-- No program runs for longer than this many instructions. The next one gives up. -/
def instructionLimit : Nat := 20000

def memoryAccess : Memory Board where
  readByte b address := b.memory.read address
  writeByte b address byte := { b with memory := b.memory.write address byte }

def costOf (b : Board) (opcode : UInt32) : UInt64 :=
  (b.costs.lookup (selector opcode)).getD b.cost

/-- The calls so far, the first one first, and the board without them. -/
def takeTrace (b : Board) : List Event × Board :=
  (b.trace.reverse, { b with trace := [] })

/-! ### Hooks -/

def note (e : Event) : Hook Board Unit :=
  modify fun s => { s with hardware := { s.hardware with trace := e :: s.hardware.trace } }

def onBoard (f : Board → Board) : Hook Board Unit :=
  modify fun s => { s with hardware := f s.hardware }

def onRegisters (f : Registers → Registers) : Hook Board Unit :=
  modify fun s => { s with registers := f s.registers }

def readWord (address : UInt32) : Hook Board UInt32 := do
  note (.read32 address)
  return memoryAccess.readWord (← get).hardware address

def writeWord (address word : UInt32) : Hook Board Unit := do
  note (.write32 address word)
  onBoard fun b => memoryAccess.writeWord b address word

def poll (delaySlot : Bool) : Hook Board Unit := do
  let s ← get
  note (.poll delaySlot s.registers.pc (s.registers.cop0 Cop0.count))
  let writes := (s.hardware.polls.lookup s.hardware.polled).getD []
  onBoard fun b => { b with polled := b.polled + 1 }
  onRegisters (·.writeAll writes)

def decode (opcode : UInt32) (flags : DecodeFlags) : Hook Board Instruction := do
  note (.decode opcode flags)
  let cost := (← get).hardware.costOf opcode
  return { opcode, cost, operation := .ofOpcode opcode }

/-- An ending lets the other task arrive before it strikes. -/
def finish : Ending → Hold Board
  | .off => ⟨.otherTask, modify fun s => { s with powered := false }⟩
  | .park => ⟨.powerOff, pure ()⟩
  | .panic => ⟨.otherTask, throw (.hardware "scripted panic")⟩

/-- The operation that an instruction stands for, which is the last one when the limit is
reached. -/
def operationOf (b : Board) (i : Instruction) : Operation :=
  if b.executed < instructionLimit then i.operation else .finish .panic

def execute (i : Instruction) : Hook Board (Option (Hold Board)) := do
  let s ← get
  note (.execute i.opcode (s.registers.cop0 Cop0.count))
  let operation := s.hardware.operationOf i
  onBoard fun b => { b with executed := b.executed + 1 }
  match operation with
  | .finish ending =>
    let hold := finish ending
    return some { hold with resume := do hold.resume; onRegisters operation.apply }
  | .storeWord a j =>
    writeWord (s.registers.gpr a).toUInt32 (s.registers.gpr j).toUInt32
    onRegisters operation.apply
    return none
  | .loadWord a j =>
    let word ← readWord (s.registers.gpr j).toUInt32
    onRegisters fun r => operation.apply (r.setGpr a word.toUInt64)
    return none
  | operation =>
    onRegisters operation.apply
    return none

def cycles (i : Instruction) (b : Board) : UInt64 × Board :=
  (i.cost, { b with trace := .cycles i.cost :: b.trace })

def writeScanline (line : UInt32) : Hook Board Unit := note (.scanline line)

def pollScanline (line : UInt32) : Hook Board (Option (Hold Board)) := do
  note (.pollScanline line)
  let b := (← get).hardware
  onBoard fun b => { b with scanlinesPolled := b.scanlinesPolled + 1 }
  return if b.scanlinesPolled = b.videoEndsAt then some (finish b.videoEnding) else none

def init : Hook Board Unit := do
  note (.init (← get).powered)
  onBoard fun b => { b with executed := 0, scanlinesPolled := 0 }

/-- Where the boot code runs from. The coprocessors look at its first byte. -/
def bootByteAddress : UInt32 := 0xa4000000

def powerOnCop0 : Hook Board Unit := do
  let s ← get
  let byte := s.hardware.memory.read bootByteAddress
  note (.cop0 s.registers.pc (s.registers.cop0 Cop0.random) byte)
  onRegisters (·.writeAll s.hardware.cop0)

def powerOnCop1 : Hook Board Unit := do
  let s ← get
  let byte := s.hardware.memory.read bootByteAddress
  note (.cop1 s.registers.pc (s.registers.cop0 Cop0.random) byte)
  onRegisters (·.writeAll s.hardware.cop1)

/-- The board as hardware that does nothing on `init`. -/
def hardwareWithoutInit : Hardware Board Instruction where
  toMemory := memoryAccess
  fetch := readWord
  poll := poll
  decode := decode
  execute := execute
  cycles := cycles
  writeScanline := writeScanline
  pollScanline := pollScanline
  powerOnCop0 := powerOnCop0
  powerOnCop1 := powerOnCop1

def hardware : Hardware Board Instruction := { hardwareWithoutInit with init := init }

end Board

end ConsoleCore.Scripted
