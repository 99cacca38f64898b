import ConsoleCore.TestBoard

/-!
# Reading back what was written

Where a range of addresses shows different bytes, a load into the range can be read back byte by
byte and word by word. In a sparse memory that is every range that fits under the mask, also one
that wraps around.
-/

namespace ConsoleCore

theorem add_ofNat_add (a : UInt32) (i j : Nat) :
    a + UInt32.ofNat i + UInt32.ofNat j = a + UInt32.ofNat (i + j) := by
  rw [UInt32.ofNat_add, UInt32.add_assoc]

namespace Memory

variable {σ : Type} {m : Memory σ} {I : σ → Prop} {start : UInt32} {n : Nat}

/-- On the states where `I` holds, the `n` addresses from `start` on are different bytes. A write
to one of them shows there, and at none of the others. -/
structure KeepsApart (m : Memory σ) (I : σ → Prop) (start : UInt32) (n : Nat) : Prop where
  write : ∀ s, I s → ∀ address byte, I (m.writeByte s address byte)
  read_write : ∀ s, I s → ∀ i < n, ∀ j < n, ∀ byte,
    m.readByte (m.writeByte s (start + UInt32.ofNat i) byte) (start + UInt32.ofNat j) =
      if i = j then byte else m.readByte s (start + UInt32.ofNat j)

/-! ## Bytes -/

theorem load_append (m : Memory σ) (s : σ) (address : UInt32) (bs cs : List UInt8) :
    m.load s address (bs ++ cs) =
      m.load (m.load s address bs) (address + UInt32.ofNat bs.length) cs := by
  induction bs generalizing s address with
  | nil => simp [load]
  | cons b bs ih =>
    have hnext : address + 1 + UInt32.ofNat bs.length =
        address + UInt32.ofNat (bs.length + 1) := by
      rw [Nat.add_comm, ← add_ofNat_add]
      rfl
    simp only [List.cons_append, load, ih, List.length_cons, hnext]

theorem KeepsApart.read_load (h : m.KeepsApart I start n) {s : σ} (hs : I s) {p : Nat}
    {bs : List UInt8} (hp : p + bs.length ≤ n) {i : Nat} (hi : i < n) :
    m.readByte (m.load s (start + UInt32.ofNat p) bs) (start + UInt32.ofNat i) =
      if i < p then m.readByte s (start + UInt32.ofNat i)
      else bs[i - p]?.getD (m.readByte s (start + UInt32.ofNat i)) := by
  induction bs generalizing s p with
  | nil => simp [load]
  | cons b bs ih =>
    rw [List.length_cons] at hp
    have hnext : start + UInt32.ofNat p + 1 = start + UInt32.ofNat (p + 1) :=
      add_ofNat_add start p 1
    rw [load, hnext, ih (h.write s hs _ _) (by omega), h.read_write s hs p (by omega) i hi]
    rcases Nat.lt_trichotomy i p with hlt | rfl | hgt
    · simp [hlt, Nat.lt_succ_of_lt hlt, Nat.ne_of_gt hlt]
    · simp
    · have hsub : i - p = i - (p + 1) + 1 := by omega
      simp [hsub, Nat.not_lt.mpr hgt, Nat.not_lt.mpr (Nat.le_of_lt hgt), Nat.ne_of_lt hgt]

/-! ## Words -/

def bigEndian (word : UInt32) : List UInt8 :=
  [(word >>> 24).toUInt8, (word >>> 16).toUInt8, (word >>> 8).toUInt8, word.toUInt8]

theorem loadWords_eq_load (m : Memory σ) (s : σ) (address : UInt32) (words : List UInt32) :
    m.loadWords s address words = m.load s address (words.flatMap bigEndian) := by
  induction words generalizing s address with
  | nil => rfl
  | cons w ws ih =>
    have hword : m.writeWord s address w = m.load s address (bigEndian w) := by
      have htwo : address + 1 + 1 = address + 2 := UInt32.add_assoc _ _ _
      have hthree : address + 2 + 1 = address + 3 := UInt32.add_assoc _ _ _
      simp only [writeWord, bigEndian, load, htwo, hthree]
    rw [List.flatMap_cons, load_append, loadWords, ih, hword]
    rfl

theorem word_of_bigEndian (w : UInt32) :
    (w >>> 24).toUInt8.toUInt32 <<< 24 ||| (w >>> 16).toUInt8.toUInt32 <<< 16
      ||| (w >>> 8).toUInt8.toUInt32 <<< 8 ||| w.toUInt8.toUInt32 = w := by
  have h24 : ((24 : UInt32).toBitVec % 32).toNat = 24 := rfl
  have h16 : ((16 : UInt32).toBitVec % 32).toNat = 16 := rfl
  have h8 : ((8 : UInt32).toBitVec % 32).toNat = 8 := rfl
  rw [← UInt32.toBitVec_inj]
  apply BitVec.eq_of_getLsbD_eq
  intro i hi
  simp only [UInt32.toBitVec_or, UInt32.toBitVec_shiftLeft, UInt8.toBitVec_toUInt32,
    UInt32.toBitVec_toUInt8, UInt32.toBitVec_shiftRight, BitVec.getLsbD_or, BitVec.shiftLeft_eq',
    BitVec.ushiftRight_eq', BitVec.getLsbD_shiftLeft, BitVec.getLsbD_setWidth,
    BitVec.getLsbD_ushiftRight, h24, h16, h8]
  -- The bit comes from the byte that `i` lies in.
  grind

theorem readWord_eq {s : σ} {address word : UInt32}
    (h : ∀ j (hj : j < 4), m.readByte s (address + UInt32.ofNat j) = (bigEndian word)[j]) :
    m.readWord s address = word := by
  have h0 : m.readByte s address = (word >>> 24).toUInt8 :=
    (congrArg (m.readByte s) (UInt32.add_zero address).symm).trans (h 0 (by decide))
  have h1 : m.readByte s (address + 1) = (word >>> 16).toUInt8 := h 1 (by decide)
  have h2 : m.readByte s (address + 2) = (word >>> 8).toUInt8 := h 2 (by decide)
  have h3 : m.readByte s (address + 3) = word.toUInt8 := h 3 (by decide)
  unfold readWord
  rw [h0, h1, h2, h3]
  exact word_of_bigEndian word

theorem length_flatMap_bigEndian (words : List UInt32) :
    (words.flatMap bigEndian).length = 4 * words.length := by
  induction words with
  | nil => rfl
  | cons w ws ih => simp [bigEndian, ih]; omega

theorem getElem?_flatMap_bigEndian (words : List UInt32) (k : Nat) {j : Nat} (hj : j < 4) :
    (words.flatMap bigEndian)[4 * k + j]? = words[k]?.bind fun w => (bigEndian w)[j]? := by
  induction words generalizing k with
  | nil => simp
  | cons w ws ih =>
    have hlen : (bigEndian w).length = 4 := rfl
    rw [List.flatMap_cons]
    cases k with
    | zero =>
      rw [List.getElem?_append_left (by omega)]
      simp
    | succ k =>
      have hnext : 4 * (k + 1) + j - 4 = 4 * k + j := by omega
      rw [List.getElem?_append_right (by omega), hlen, hnext, ih]
      rfl

theorem KeepsApart.readWord_loadWords (h : m.KeepsApart I start n) {s : σ} (hs : I s)
    {words : List UInt32} (hn : 4 * words.length ≤ n) {k : Nat} (hk : k < words.length) :
    m.readWord (m.loadWords s start words) (start + UInt32.ofNat (4 * k)) = words[k] := by
  apply readWord_eq
  intro j hj
  have hfirst : start + UInt32.ofNat 0 = start := UInt32.add_zero start
  have hroom : 0 + (words.flatMap bigEndian).length ≤ n := by
    rw [length_flatMap_bigEndian]
    omega
  have hread := h.read_load hs hroom (i := 4 * k + j) (by omega)
  rw [hfirst] at hread
  rw [loadWords_eq_load, add_ofNat_add, hread]
  simp [getElem?_flatMap_bigEndian words k hj, hk, bigEndian, hj]

end Memory

/-! ## Memory behind a mask -/

/-- Where an address lies in a memory of 512 megabytes. The three bits above do not count. -/
def physical (address : UInt32) : Nat := address.toNat % 0x20000000

theorem physical_add (a : UInt32) (i : Nat) :
    physical (a + UInt32.ofNat i) = (physical a + i) % 0x20000000 := by
  unfold physical
  rw [UInt32.toNat_add, UInt32.toNat_ofNat']
  omega

theorem physical_add_inj (a : UInt32) {i j : Nat} (hi : i < 0x20000000) (hj : j < 0x20000000) :
    physical (a + UInt32.ofNat i) = physical (a + UInt32.ofNat j) ↔ i = j := by
  rw [physical_add, physical_add]
  omega

theorem SparseMemory.and_mask_eq_iff (a b : UInt32) :
    a &&& 0x1fffffff = b &&& 0x1fffffff ↔ physical a = physical b := by
  have hmask (x : UInt32) : (x &&& 0x1fffffff).toNat = physical x := by
    rw [UInt32.toNat_and]
    exact Nat.and_two_pow_sub_one_eq_mod x.toNat 29
  rw [← UInt32.toNat_inj, hmask, hmask]

namespace Memory

variable {σ : Type} {m : Memory σ} {memory : σ → SparseMemory} {s : σ}

structure BackedBy (m : Memory σ) (memory : σ → SparseMemory) : Prop where
  readByte : ∀ s address, m.readByte s address = (memory s).read address
  writeByte : ∀ s address byte, memory (m.writeByte s address byte) = (memory s).write address byte

theorem BackedBy.readByte_congr (h : m.BackedBy memory) (hmask : (memory s).mask = 0x1fffffff)
    {a b : UInt32} (hab : physical a = physical b) : m.readByte s a = m.readByte s b := by
  rw [h.readByte, h.readByte]
  unfold SparseMemory.read
  rw [hmask, (SparseMemory.and_mask_eq_iff a b).mpr hab]

theorem BackedBy.mask_writeByte (h : m.BackedBy memory) (hmask : (memory s).mask = 0x1fffffff)
    (a : UInt32) (byte : UInt8) : (memory (m.writeByte s a byte)).mask = 0x1fffffff := by
  rw [h.writeByte, SparseMemory.mask_write, hmask]

theorem BackedBy.readByte_writeByte (h : m.BackedBy memory) (hmask : (memory s).mask = 0x1fffffff)
    (a b : UInt32) (byte : UInt8) :
    m.readByte (m.writeByte s a byte) b =
      if physical a = physical b then byte else m.readByte s b := by
  rw [h.readByte, h.writeByte, SparseMemory.read_write, hmask, ← h.readByte s b]
  simp only [SparseMemory.and_mask_eq_iff]

theorem BackedBy.keepsApart (h : m.BackedBy memory) (start : UInt32) {n : Nat}
    (hn : n ≤ 0x20000000) : m.KeepsApart (fun s => (memory s).mask = 0x1fffffff) start n where
  write _ hs := h.mask_writeByte hs
  read_write s hs i hi j hj byte := by
    rw [h.readByte_writeByte hs]
    simp only [physical_add_inj start (Nat.lt_of_lt_of_le hi hn) (Nat.lt_of_lt_of_le hj hn)]

end Memory

namespace SparseMemory

theorem backedBy : access.BackedBy id where
  readByte _ _ := rfl
  writeByte _ _ _ := rfl

theorem keepsApart (start : UInt32) {n : Nat} (hn : n ≤ 0x20000000) :
    access.KeepsApart (·.mask = 0x1fffffff) start n := backedBy.keepsApart start hn

end SparseMemory

theorem TestBoard.backedBy : memoryAccess.BackedBy TestBoard.memory where
  readByte _ _ := rfl
  writeByte _ _ _ := rfl

end ConsoleCore
