/-!
# Byte memory

What the core needs of a memory: to read and to write single bytes. Words and copies are built
from these. Addresses have 32 bits and wrap around.
-/

namespace ConsoleCore

/-- Access to the bytes that a state of type `σ` holds. -/
structure Memory (σ : Type) where
  readByte : σ → UInt32 → UInt8
  writeByte : σ → UInt32 → UInt8 → σ

namespace Memory

variable {σ : Type}

def copyByte (m : Memory σ) (s : σ) (source target : UInt32) : σ :=
  m.writeByte s target (m.readByte s source)

/-- Copies the bytes from the first to the last. Each one is read after the ones before it were
written, which shows if the two ranges overlap. -/
def copy (m : Memory σ) (s : σ) (source target length : UInt32) : σ :=
  length.toNat.fold
    (fun i _ s => m.copyByte s (source + UInt32.ofNat i) (target + UInt32.ofNat i)) s

/-- What every step of the copy keeps, if the steps are counted, holds at its end. -/
theorem copy_induction {m : Memory σ} {I : Nat → σ → Prop} {source target length : UInt32} {s : σ}
    (hstart : I 0 s)
    (hstep : ∀ i < length.toNat, ∀ t, I i t →
      I (i + 1) (m.copyByte t (source + UInt32.ofNat i) (target + UInt32.ofNat i))) :
    I length.toNat (m.copy s source target length) := by
  have hprefix : ∀ n (hn : n ≤ length.toNat), I n (n.fold
      (fun i _ t => m.copyByte t (source + UInt32.ofNat i) (target + UInt32.ofNat i)) s) := by
    intro n hn
    induction n with
    | zero => exact hstart
    | succ n ih =>
      rw [Nat.fold_succ]
      exact hstep n hn _ (ih (Nat.le_of_succ_le hn))
  exact hprefix _ (Nat.le_refl _)

/-- What no write into the target range breaks, the copy does not break. -/
theorem copy_keeps (m : Memory σ) {I : σ → Prop} {source target length : UInt32}
    (h : ∀ i < length.toNat, ∀ s byte, I s → I (m.writeByte s (target + UInt32.ofNat i) byte))
    {s : σ} (hs : I s) : I (m.copy s source target length) :=
  copy_induction (I := fun _ => I) hs fun i hi t ht => h i hi t _ ht

/-- Words are big-endian and need no alignment. -/
def readWord (m : Memory σ) (s : σ) (address : UInt32) : UInt32 :=
  (m.readByte s address).toUInt32 <<< 24
    ||| (m.readByte s (address + 1)).toUInt32 <<< 16
    ||| (m.readByte s (address + 2)).toUInt32 <<< 8
    ||| (m.readByte s (address + 3)).toUInt32

def writeWord (m : Memory σ) (s : σ) (address word : UInt32) : σ :=
  let s := m.writeByte s address (word >>> 24).toUInt8
  let s := m.writeByte s (address + 1) (word >>> 16).toUInt8
  let s := m.writeByte s (address + 2) (word >>> 8).toUInt8
  m.writeByte s (address + 3) word.toUInt8

/-- Writes the bytes one after the other, from `address` on. -/
def load (m : Memory σ) (s : σ) (address : UInt32) : List UInt8 → σ
  | [] => s
  | b :: bs => m.load (m.writeByte s address b) (address + 1) bs

def loadWords (m : Memory σ) (s : σ) (address : UInt32) : List UInt32 → σ
  | [] => s
  | w :: ws => m.loadWords (m.writeWord s address w) (address + 4) ws

/-- The `length` bytes from `address` on. -/
def bytes (m : Memory σ) (s : σ) (address length : UInt32) : List UInt8 :=
  (List.range length.toNat).map fun i => m.readByte s (address + UInt32.ofNat i)

end Memory

end ConsoleCore
