import ConsoleCore.Proofs.Checksum

/-!
# The checksum, bit by bit

CRC-32 without a table: the bits of the message go into the state one after the other. The table
is a shortcut for eight of them, since a shift does not mix the state with the message.
-/

namespace ConsoleCore.Checksum

/-! ## The definition -/

/-- Shifts one bit out of the state. If the message has another bit, the polynomial goes in. -/
def feedBit (c : UInt32) (bit : Bool) : UInt32 :=
  if c.toNat.testBit 0 = bit then c >>> 1 else (c >>> 1) ^^^ 0xedb88320

def lowBits (n v : Nat) : List Bool := (List.range n).map v.testBit

def bitSerial (bytes : List UInt8) : UInt32 :=
  ~~~ (bytes.flatMap fun byte => lowBits 8 byte.toNat).foldl feedBit 0xffffffff

example : bitSerial [0x31, 0x32, 0x33, 0x34, 0x35, 0x36, 0x37, 0x38, 0x39] = 0xcbf43926 := by
  cbv

/-! ## One byte -/

theorem shiftBit_xor_eq_feedBit (c v : UInt32) :
    shiftBit (c ^^^ v) = feedBit c (v.toNat.testBit 0) ^^^ (v >>> 1) := by
  have hodd (x : UInt32) : x &&& 1 = 1 ↔ x.toNat.testBit 0 = true := by
    rw [and_one_eq_one_iff, Nat.testBit_zero, decide_eq_true_iff]
  rw [shiftBit_xor]
  unfold shiftBit feedBit polynomial
  simp only [hodd]
  cases c.toNat.testBit 0 <;> cases v.toNat.testBit 0
  case false.false => simp
  case false.true => simp [UInt32.xor_comm (v >>> 1), UInt32.xor_assoc]
  case true.false => simp
  case true.true =>
    -- The polynomial went into both, and cancels out.
    simp only [if_true]
    rw [UInt32.xor_comm (v >>> 1), UInt32.xor_assoc, ← UInt32.xor_assoc 0xedb88320,
      UInt32.xor_self, UInt32.zero_xor]

theorem repeat_shiftBit_eq_feedBits (c v : UInt32) (n : Nat) :
    Nat.repeat shiftBit n (c ^^^ v) =
      (lowBits n v.toNat).foldl feedBit c ^^^ UInt32.ofNat (v.toNat >>> n) := by
  induction n with
  | zero => simp [Nat.repeat, lowBits]
  | succ n ih =>
    have hle : v.toNat >>> n < UInt32.size := by
      rw [Nat.shiftRight_eq_div_pow]
      exact Nat.lt_of_le_of_lt (Nat.div_le_self _ _) v.toNat_lt
    have hbit : (UInt32.ofNat (v.toNat >>> n)).toNat.testBit 0 = v.toNat.testBit n := by
      rw [UInt32.toNat_ofNat_of_lt' hle, Nat.testBit_shiftRight, Nat.add_zero]
    have hrest : UInt32.ofNat (v.toNat >>> n) >>> 1 = UInt32.ofNat (v.toNat >>> (n + 1)) := by
      have hhalf : v.toNat >>> (n + 1) = v.toNat >>> n / 2 := Nat.shiftRight_succ _ _
      rw [← UInt32.toNat_inj, toNat_shiftRight_one, UInt32.toNat_ofNat_of_lt' hle, hhalf,
        UInt32.toNat_ofNat_of_lt' (by omega)]
    simp only [Nat.repeat, ih, shiftBit_xor_eq_feedBit, hbit, hrest]
    simp [lowBits, List.range_succ]

theorem fold_eq_feedBits (c : UInt32) (byte : UInt8) :
    fold c byte = (lowBits 8 byte.toNat).foldl feedBit c := by
  have hbyte : byte.toUInt32.toNat >>> 8 = 0 := by
    have := byte.toNat_lt
    rw [UInt8.toNat_toUInt32, Nat.shiftRight_eq_div_pow]
    omega
  rw [fold_eq, shiftByte, repeat_shiftBit_eq_feedBits, hbyte]
  simp

theorem foldl_fold_eq_feedBits (c : UInt32) (bytes : List UInt8) :
    bytes.foldl fold c = (bytes.flatMap fun byte => lowBits 8 byte.toNat).foldl feedBit c := by
  induction bytes generalizing c with
  | nil => rfl
  | cons byte bytes ih =>
    simp only [List.foldl_cons, List.flatMap_cons, List.foldl_append, ih, fold_eq_feedBits]

end ConsoleCore.Checksum

namespace ConsoleCore

/-- With the table, the checksum of a range is the CRC-32 of its bytes, for every memory and every
range, also one that wraps around. -/
theorem checksum_eq_bitSerial (read : UInt32 → UInt8) (start length : UInt32) :
    checksum read start length = Checksum.bitSerial (range read start length) := by
  have hcomplement (c : UInt32) : c ^^^ 0xffffffff = ~~~ c := UInt32.xor_neg_one
  rw [checksum_eq_foldl, Checksum.foldl_fold_eq_feedBits, hcomplement]
  rfl

end ConsoleCore
