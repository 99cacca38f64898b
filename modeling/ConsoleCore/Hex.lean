/-!
# Hexadecimal text

Numbers and bytes as lower-case hexadecimal digits. Reading takes either case.
-/

namespace ConsoleCore.Hex

/-- The digits of a number, without leading zeros. Zero has one digit. -/
def digits (n : Nat) : String := String.ofList (Nat.toDigits 16 n)

/-- The digits of a number, filled up with zeros on the left to at least `width` of them. -/
def padded (width n : Nat) : String :=
  let ds := Nat.toDigits 16 n
  String.ofList (List.replicate (width - ds.length) '0' ++ ds)

/-- Two digits a byte. -/
def ofBytes (bytes : List UInt8) : String :=
  String.join (bytes.map fun b => padded 2 b.toNat)

def digitValue? (c : Char) : Option Nat :=
  if '0' ≤ c ∧ c ≤ '9' then some (c.toNat - '0'.toNat)
  else if 'a' ≤ c ∧ c ≤ 'f' then some (c.toNat - 'a'.toNat + 10)
  else if 'A' ≤ c ∧ c ≤ 'F' then some (c.toNat - 'A'.toNat + 10)
  else none

/-- Reads digits from the most significant down, on top of what was read before. -/
def readDigits? : Nat → List Char → Option Nat
  | n, [] => some n
  | n, c :: cs => do readDigits? (16 * n + (← digitValue? c)) cs

/-- Reads a number written as `0x` and at least one digit. -/
def number? (s : String) : Option Nat :=
  match s.toList with
  | '0' :: 'x' :: c :: cs => readDigits? 0 (c :: cs)
  | _ => none

/-- Reads digits in pairs. An odd digit at the end is refused. -/
def readBytes? : List Char → Option (List UInt8)
  | [] => some []
  | [_] => none
  | c :: d :: rest => do
    let high ← digitValue? c
    let low ← digitValue? d
    return UInt8.ofNat (16 * high + low) :: (← readBytes? rest)

def bytes? (s : String) : Option (List UInt8) := readBytes? s.toList

end ConsoleCore.Hex
