/-!
# CRC-32

The reflected CRC-32 with polynomial 0xEDB88320, folded one byte at a time through a table of 256
entries. It fingerprints the boot code of a cartridge.
-/

namespace ConsoleCore.Checksum

def polynomial : UInt32 := 0xedb88320

/-- Moves the state on by one bit, the lowest one first. -/
def shiftBit (c : UInt32) : UInt32 :=
  if c &&& 1 = 1 then (c >>> 1) ^^^ polynomial else c >>> 1

/-- Eight bits of the state, with nothing fed in. -/
def shiftByte (c : UInt32) : UInt32 := Nat.repeat shiftBit 8 c

/-- What each value of the low byte turns into when it is shifted out. -/
def table : Vector UInt32 256 := Vector.ofFn fun i => shiftByte (UInt32.ofNat i)

theorem table_getElem (i : Fin 256) : table[i] = shiftByte (UInt32.ofNat i) := by
  simp [table]

def fold (c : UInt32) (byte : UInt8) : UInt32 :=
  let i : Fin 256 := (c ^^^ byte.toUInt32).toUInt8.toFin
  table[i] ^^^ (c >>> 8)

end ConsoleCore.Checksum

namespace ConsoleCore

/-- The checksum of the `length` bytes from `start` on. Addresses wrap around after the last
one. -/
def checksum (read : UInt32 → UInt8) (start length : UInt32) : UInt32 :=
  length.toNat.fold (fun i _ c => Checksum.fold c (read (start + UInt32.ofNat i))) 0xffffffff
    ^^^ 0xffffffff

/-- Only the bytes of the window count. -/
theorem checksum_congr {read read' : UInt32 → UInt8} {start length : UInt32}
    (h : ∀ i < length.toNat, read (start + UInt32.ofNat i) = read' (start + UInt32.ofNat i)) :
    checksum read start length = checksum read' start length := by
  have hfold : (fun i (_ : i < length.toNat) c => Checksum.fold c (read (start + UInt32.ofNat i))) =
      fun i _ c => Checksum.fold c (read' (start + UInt32.ofNat i)) := by
    funext i hi c
    rw [h i hi]
  unfold checksum
  rw [hfold]

end ConsoleCore
