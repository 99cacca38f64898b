/-!
# The register file

Thirty-two general purpose registers, the thirty-two registers of the system control coprocessor
(coprocessor 0), HI, LO and the program counter. All of them are 64 bits wide. An index counts
modulo the size of its bank, like the five-bit register fields of an opcode.
-/

namespace ConsoleCore

/-! ## One bank of registers -/

abbrev Bank := Vector UInt64 32

namespace Bank

def zero : Bank := Vector.replicate 32 0

def read (b : Bank) (i : Nat) : UInt64 := b[i % 32]

def write (b : Bank) (i : Nat) (v : UInt64) : Bank := b.set (i % 32) v

@[simp] theorem read_zero (i : Nat) : zero.read i = 0 := by simp [read, zero]

theorem read_write (b : Bank) (i j : Nat) (v : UInt64) :
    (b.write i v).read j = if i % 32 = j % 32 then v else b.read j := by
  simp [read, write, Vector.getElem_set]

end Bank

/-! ## Names of the coprocessor 0 registers -/

namespace Cop0

abbrev index : Nat := 0
abbrev random : Nat := 1
abbrev entryLo0 : Nat := 2
abbrev entryLo1 : Nat := 3
abbrev context : Nat := 4
abbrev pageMask : Nat := 5
abbrev wired : Nat := 6
abbrev badVAddr : Nat := 8
abbrev count : Nat := 9
abbrev entryHi : Nat := 10
abbrev compare : Nat := 11
abbrev status : Nat := 12
abbrev cause : Nat := 13
abbrev epc : Nat := 14
abbrev prid : Nat := 15
abbrev config : Nat := 16
abbrev llAddr : Nat := 17
abbrev watchLo : Nat := 18
abbrev watchHi : Nat := 19
abbrev xContext : Nat := 20
abbrev parityError : Nat := 26
abbrev cacheError : Nat := 27
abbrev tagLo : Nat := 28
abbrev tagHi : Nat := 29
abbrev errorEpc : Nat := 30

/-- Random is reloaded with this, and holds it after a reset. -/
def randomMax : UInt64 := 0x1f

end Cop0

/-! ## The whole file -/

structure Registers where
  gprs : Bank := .zero
  hi : UInt64 := 0
  lo : UInt64 := 0
  pc : UInt64 := 0
  cop0s : Bank := .zero
  deriving DecidableEq

namespace Registers

def gpr (r : Registers) (i : Nat) : UInt64 := r.gprs.read i

/-- R0 is hardwired to zero, so a write to it is dropped. -/
def setGpr (r : Registers) (i : Nat) (v : UInt64) : Registers :=
  if i % 32 = 0 then r else { r with gprs := r.gprs.write i v }

def cop0 (r : Registers) (i : Nat) : UInt64 := r.cop0s.read i

def setCop0 (r : Registers) (i : Nat) (v : UInt64) : Registers :=
  { r with cop0s := r.cop0s.write i v }

def setHi (r : Registers) (v : UInt64) : Registers := { r with hi := v }

def setLo (r : Registers) (v : UInt64) : Registers := { r with lo := v }

def setPc (r : Registers) (v : UInt64) : Registers := { r with pc := v }

def clearZero (r : Registers) : Registers := { r with gprs := r.gprs.write 0 0 }

def clearGpr (r : Registers) : Registers := { r with gprs := .zero }

/-- Zero everywhere, except for Random, which starts at its upper bound. -/
def atReset : Registers := { cop0s := Bank.zero.write Cop0.random Cop0.randomMax }

/-! ### Reading after a write -/

@[simp] theorem gpr_setCop0 (r : Registers) (i j : Nat) (v : UInt64) :
    (r.setCop0 j v).gpr i = r.gpr i := rfl

@[simp] theorem cop0_setGpr (r : Registers) (i j : Nat) (v : UInt64) :
    (r.setGpr j v).cop0 i = r.cop0 i := by
  unfold setGpr; split <;> rfl

theorem gpr_setGpr (r : Registers) (i j : Nat) (v : UInt64) :
    (r.setGpr i v).gpr j = if i % 32 = j % 32 ∧ i % 32 ≠ 0 then v else r.gpr j := by
  unfold setGpr gpr
  split
  · simp [*]
  · simp [Bank.read_write, *]

theorem cop0_setCop0 (r : Registers) (i j : Nat) (v : UInt64) :
    (r.setCop0 i v).cop0 j = if i % 32 = j % 32 then v else r.cop0 j :=
  Bank.read_write r.cop0s i j v

@[simp] theorem cop0_setCop0_self (r : Registers) (i : Nat) (v : UInt64) :
    (r.setCop0 i v).cop0 i = v := by
  rw [cop0_setCop0, if_pos rfl]

theorem cop0_setCop0_of_ne {i j : Nat} (h : i % 32 ≠ j % 32) (r : Registers) (v : UInt64) :
    (r.setCop0 i v).cop0 j = r.cop0 j := by
  rw [cop0_setCop0, if_neg h]

theorem gpr_clearZero (r : Registers) (i : Nat) :
    r.clearZero.gpr i = if i % 32 = 0 then 0 else r.gpr i := by
  simp [clearZero, gpr, Bank.read_write, eq_comm]

@[simp] theorem cop0_clearZero (r : Registers) (i : Nat) : r.clearZero.cop0 i = r.cop0 i := rfl

@[simp] theorem gpr_clearGpr (r : Registers) (i : Nat) : r.clearGpr.gpr i = 0 :=
  Bank.read_zero i

@[simp] theorem gpr_atReset (i : Nat) : atReset.gpr i = 0 := Bank.read_zero i

theorem cop0_atReset (i : Nat) :
    atReset.cop0 i = if i % 32 = Cop0.random then Cop0.randomMax else 0 := by
  simp [atReset, cop0, Bank.read_write, eq_comm]

end Registers

/-! ## Writes as data -/

inductive RegisterWrite where
  | gpr (i : Nat) (v : UInt64)
  | cop0 (i : Nat) (v : UInt64)
  | hi (v : UInt64)
  | lo (v : UInt64)
  | pc (v : UInt64)
  deriving DecidableEq, Repr

namespace Registers

def write (r : Registers) : RegisterWrite → Registers
  | .gpr i v => r.setGpr i v
  | .cop0 i v => r.setCop0 i v
  | .hi v => r.setHi v
  | .lo v => r.setLo v
  | .pc v => r.setPc v

def writeAll (r : Registers) (ws : List RegisterWrite) : Registers := ws.foldl write r

@[simp] theorem writeAll_nil (r : Registers) : r.writeAll [] = r := rfl

@[simp] theorem writeAll_cons (r : Registers) (w : RegisterWrite) (ws : List RegisterWrite) :
    r.writeAll (w :: ws) = (r.write w).writeAll ws := rfl

theorem writeAll_append (r : Registers) (ws vs : List RegisterWrite) :
    r.writeAll (ws ++ vs) = (r.writeAll ws).writeAll vs :=
  List.foldl_append

end Registers

inductive RegisterOperation where
  | write (w : RegisterWrite)
  | clearZero
  | clearGpr
  | reset
  deriving DecidableEq, Repr

def Registers.operate (r : Registers) : RegisterOperation → Registers
  | .write w => r.write w
  | .clearZero => r.clearZero
  | .clearGpr => r.clearGpr
  | .reset => .atReset

/-! ## Snapshots -/

/-- A plain copy of the register file, for tools that look at it from outside. -/
structure Snapshot where
  gpr : Vector UInt64 32
  hi : UInt64
  lo : UInt64
  pc : UInt64
  cop0 : Vector UInt64 32
  deriving DecidableEq

def Registers.snapshot (r : Registers) : Snapshot where
  gpr := r.gprs
  hi := r.hi
  lo := r.lo
  pc := r.pc
  cop0 := r.cop0s

end ConsoleCore
