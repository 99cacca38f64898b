import ConsoleCore.Registers

/-!
# The instruction set of the scripted board

A small instruction set with which programs can reach everything the core offers. The top byte of
an opcode chooses the operation, the next byte is a register `a`, and the low half is an immediate
value.
-/

namespace ConsoleCore.Scripted

/-- How a program, or the video side, comes to its end. -/
inductive Ending where
  | off
  /-- Waits until somebody switches the power off. -/
  | park
  | panic
  deriving DecidableEq, Repr

inductive Operation where
  | loadImmediate (a : Nat) (imm : UInt64)
  | setWired (imm : UInt64)
  | setCop0 (a : Nat) (imm : UInt64)
  | fromCop0 (a : Nat) (i : Nat)
  | toCop0 (a : Nat) (i : Nat)
  | jumpBy (words : UInt64)
  | storeWord (a : Nat) (i : Nat)
  | loadWord (a : Nat) (i : Nat)
  | addImmediate (a : Nat) (imm : UInt64)
  | shiftLeft (a : Nat) (n : UInt64)
  | toHi (a : Nat)
  | toLo (a : Nat)
  | fromHi (a : Nat)
  | fromLo (a : Nat)
  | jumpTo (a : Nat)
  | branchNonzero (a : Nat) (words : UInt64)
  | finish (ending : Ending)
  | nothing
  deriving DecidableEq, Repr

/-- The low half of an opcode as a signed number of 64 bits. -/
def signed (imm : UInt64) : UInt64 := if imm < 0x8000 then imm else imm - 0x10000

def selector (opcode : UInt32) : UInt8 := (opcode >>> 24).toUInt8

def Operation.ofOpcode (opcode : UInt32) : Operation :=
  let a := ((opcode >>> 16) &&& 0xff).toNat
  let imm := (opcode &&& 0xffff).toUInt64
  match (selector opcode).toNat with
  | 0x01 => .loadImmediate a imm
  | 0x02 => .setWired imm
  | 0x03 => .setCop0 a imm
  | 0x04 => .fromCop0 a imm.toNat
  | 0x05 => .toCop0 a imm.toNat
  | 0x06 => .jumpBy (signed imm)
  | 0x07 => .storeWord a imm.toNat
  | 0x08 => .loadWord a imm.toNat
  | 0x09 => .addImmediate a (signed imm)
  | 0x0a => .shiftLeft a (imm &&& 63)
  | 0x0b => .toHi a
  | 0x0c => .toLo a
  | 0x0d => .fromHi a
  | 0x0e => .fromLo a
  | 0x0f => .jumpTo a
  | 0x10 => .branchNonzero a (signed imm)
  | 0xf0 => .finish .off
  | 0xf1 => .finish .park
  | 0xf2 => .finish .panic
  | _ => .nothing

/-- What an operation that touches registers only does to them. Those that end a program or reach
memory only step the program counter here. -/
def Operation.apply (op : Operation) (r : Registers) : Registers :=
  let step (r : Registers) : Registers := r.setPc (r.pc + 4)
  match op with
  | loadImmediate a imm => step (r.setGpr a imm)
  | setWired imm => step (r.setCop0 Cop0.wired imm)
  | setCop0 a imm => step (r.setCop0 a imm)
  | fromCop0 a i => step (r.setGpr a (r.cop0 i))
  | toCop0 a i => step (r.setCop0 a (r.gpr i))
  | jumpBy words => r.setPc (r.pc + 4 * words)
  | addImmediate a imm => step (r.setGpr a (r.gpr a + imm))
  | shiftLeft a n => step (r.setGpr a (r.gpr a <<< n))
  | toHi a => step (r.setHi (r.gpr a))
  | toLo a => step (r.setLo (r.gpr a))
  | fromHi a => step (r.setGpr a r.hi)
  | fromLo a => step (r.setGpr a r.lo)
  | jumpTo a => r.setPc (r.gpr a)
  | branchNonzero a words => if r.gpr a ≠ 0 then r.setPc (r.pc + 4 * words) else step r
  | storeWord .. | loadWord .. | finish _ | nothing => step r

end ConsoleCore.Scripted
