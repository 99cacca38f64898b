import ConsoleCore.Checksum

/-!
# Boot chips

A cartridge carries a boot chip (CIC) that hands the console a seed, and the boot code on the
cartridge refuses to run without it. There is no chip to ask here, so its revision is taken from
a checksum of the boot code.
-/

namespace ConsoleCore

inductive BootChip where
  /-- Aleck64 arcade boards. -/
  | nus5101
  | nus6101
  | nus7102
  | nus6102
  | nus6103
  | nus6105
  | nus6106
  | nus8303
  | iQue1
  | iQue2
  | iQue3
  deriving DecidableEq, Repr

namespace BootChip

def name : BootChip → String
  | nus5101 => "CIC-NUS-5101"
  | nus6101 => "CIC-NUS-6101"
  | nus7102 => "CIC-NUS-7102"
  | nus6102 => "CIC-NUS-6102"
  | nus6103 => "CIC-NUS-6103"
  | nus6105 => "CIC-NUS-6105"
  | nus6106 => "CIC-NUS-6106"
  | nus8303 => "CIC-NUS-8303"
  | iQue1 => "iQue (1)"
  | iQue2 => "iQue (2)"
  | iQue3 => "iQue (3)"

/-- NUS-7102 and the iQue chips are firmware variants of NUS-6101 and share its seed. -/
def seed : BootChip → UInt32
  | nus5101 => 0x0000ac00
  | nus6101 | nus7102 | iQue1 | iQue2 | iQue3 => 0x00043f3f
  | nus6102 => 0x00003f3f
  | nus6103 => 0x0000783f
  | nus6105 => 0x0000913f
  | nus6106 => 0x0000853f
  | nus8303 => 0x0000dd00

/-- The revision whose seed an unknown cartridge gets. -/
def default : BootChip := nus6101

/-- The checksum of the long window, for each revision that is known by it. -/
def longChecksums : List (UInt32 × BootChip) := [
  (0x6170a4a1, nus6101),
  (0x009e9ea3, nus7102),
  (0x90bb6cb5, nus6102),
  (0x0b050ee0, nus6103),
  (0x98bc2c86, nus6105),
  (0xacc8580a, nus6106),
  (0x0e018159, nus8303),
  (0xcd19fef1, iQue1),
  (0xb98ced9a, iQue2),
  (0xe71c2766, iQue3)]

def aleck64Checksum : UInt32 := 0x587bd543

end BootChip

/-! ## Fingerprints -/

/-- The checksums of the two windows at the start of the boot code. -/
structure Fingerprint where
  long : UInt32
  short : UInt32
  deriving DecidableEq, Repr

namespace Fingerprint

/-- Where the boot code lies on the cartridge. -/
def start : UInt32 := 0x10000040

def longLength : UInt32 := 0xfc0

def shortLength : UInt32 := 0xbc0

def ofMemory (read : UInt32 → UInt8) : Fingerprint where
  long := checksum read start longLength
  short := checksum read start shortLength

/-- The windows start together, and the short one ends first. -/
theorem ofMemory_congr {read read' : UInt32 → UInt8}
    (h : ∀ a, start ≤ a → a < start + longLength → read a = read' a) :
    ofMemory read = ofMemory read' := by
  have hwindow : ∀ i < longLength.toNat,
      read (start + UInt32.ofNat i) = read' (start + UInt32.ofNat i) := by
    intro i hi
    have hlong : longLength.toNat = 0xfc0 := rfl
    refine h _ ?_ ?_
    · rw [UInt32.le_iff_toNat_le, UInt32.toNat_add, UInt32.toNat_ofNat']
      have hstart : start.toNat = 0x10000040 := rfl
      omega
    · rw [UInt32.lt_iff_toNat_lt, UInt32.toNat_add, UInt32.toNat_ofNat']
      have hstart : start.toNat = 0x10000040 := rfl
      have hend : (start + longLength).toNat = 0x10001000 := rfl
      omega
  have hshort : shortLength.toNat ≤ longLength.toNat := by decide
  unfold ofMemory
  rw [checksum_congr hwindow, checksum_congr fun i hi => hwindow i (Nat.lt_of_lt_of_le hi hshort)]

/-- The short window goes first: it alone tells the Aleck64 apart. -/
def chip? (f : Fingerprint) : Option BootChip :=
  if f.short = BootChip.aleck64Checksum then some .nus5101
  else BootChip.longChecksums.lookup f.long

/-- An unknown cartridge gets the seed of the most common revision, so that it can boot. -/
def seed (f : Fingerprint) : UInt32 := (f.chip?.getD .default).seed

end Fingerprint

end ConsoleCore
