import ConsoleCore.Registers
import ConsoleCore.Settings

/-!
# The boot state

What the boot ROM of the console leaves behind for the boot code of the cartridge: the registers,
and the boot code itself at the place where it runs.
-/

namespace ConsoleCore.BootState

/-! ## The boot code -/

/-- Where the boot code is read, in the cartridge domain. -/
def source : UInt32 := 0xb0000000

/-- Where it runs, at the start of the data memory of the RSP. -/
def target : UInt32 := 0xa4000000

def length : UInt32 := 0xfff

/-! ## The registers -/

/-- The general purpose registers that are the same for every console and cartridge. -/
def fixedRegisters : List (Nat × UInt64) := [
  (1, 0x0000000000000001),
  (2, 0x000000000ebda536),
  (3, 0x000000000ebda536),
  (4, 0x000000000000a536),
  (5, 0xffffffffc0f1d859),
  (6, 0xffffffffa4001f0c),
  (7, 0xffffffffa4001f08),
  (8, 0x00000000000000c0),
  (10, 0x0000000000000040),
  (11, 0xffffffffa4000040),
  (12, 0xffffffffed10d0b3),
  (13, 0x000000001402a4cc),
  (14, 0x000000002de108ea),
  (15, 0x000000003103e121),
  (25, 0xffffffff9debb54f),
  (29, 0xffffffffa4001ff0), -- the stack pointer
  (31, 0xffffffffa4001550)] -- the return address

def hi : UInt64 := 0x3fc18657
def lo : UInt64 := 0x3103e121
def pc : UInt64 := 0xa4000040

/-! The registers that tell the boot code about console and cartridge. -/

def mediumRegister : Nat := 19
def tvRegister : Nat := 20
def resetKindRegister : Nat := 21
def seedRegister : Nat := 22
def osVersionRegister : Nat := 23

/-- The boot code gets the second byte of the seed. -/
def seedByte (seed : UInt32) : UInt32 := (seed >>> 8) &&& 0xff

def writes (settings : Settings) (tv : TvStandard) (seed : UInt32) : List RegisterWrite :=
  fixedRegisters.map (fun (i, v) => .gpr i v) ++ [
    .gpr mediumRegister settings.medium.code.toUInt64,
    .gpr tvRegister tv.code.toUInt64,
    .gpr resetKindRegister settings.resetKind.code.toUInt64,
    .gpr seedRegister (seedByte seed).toUInt64,
    .gpr osVersionRegister settings.osVersion.toUInt64,
    .hi hi,
    .lo lo,
    .pc pc]

/-- The register file that the boot code finds. -/
def registers (settings : Settings) (tv : TvStandard) (seed : UInt32) : Registers :=
  Registers.atReset.writeAll (writes settings tv seed)

end ConsoleCore.BootState
