import Std.Data.HashMap
import ConsoleCore.Memory

/-!
# Sparse memory

A memory that stores only the bytes that were written; all others are zero. A mask says which
bits of an address count, so that several address ranges can show the same bytes.
-/

namespace ConsoleCore

structure SparseMemory where
  mask : UInt32 := 0x1fffffff
  bytes : Std.HashMap UInt32 UInt8 := {}

namespace SparseMemory

def read (m : SparseMemory) (address : UInt32) : UInt8 :=
  m.bytes.getD (address &&& m.mask) 0

def write (m : SparseMemory) (address : UInt32) (byte : UInt8) : SparseMemory :=
  { m with bytes := m.bytes.insert (address &&& m.mask) byte }

@[simp] theorem mask_write (m : SparseMemory) (a : UInt32) (v : UInt8) :
    (m.write a v).mask = m.mask := rfl

theorem read_write (m : SparseMemory) (a b : UInt32) (v : UInt8) :
    (m.write a v).read b = if a &&& m.mask = b &&& m.mask then v else m.read b := by
  simp [read, write, Std.HashMap.getD_insert]

@[simp] theorem read_empty (mask a : UInt32) : ({ mask } : SparseMemory).read a = 0 := by
  simp [read]

def access : Memory SparseMemory where
  readByte := read
  writeByte := write

end SparseMemory

end ConsoleCore
