/-!
# Durations

A length of time in whole nanoseconds. In its written form the seconds have 64 bits, so there is
a longest one.
-/

namespace ConsoleCore

/-- The first number of nanoseconds that is too long. -/
def Duration.limit : Nat := UInt64.size * 1000000000

structure Duration where
  nanoseconds : Nat
  lt_limit : nanoseconds < Duration.limit
  deriving DecidableEq

namespace Duration

def ofNanoseconds? (n : Nat) : Option Duration :=
  if h : n < limit then some ⟨n, h⟩ else none

def ofMicroseconds (n : UInt64) : Duration where
  nanoseconds := n.toNat * 1000
  lt_limit := by have := n.toNat_lt; unfold limit UInt64.size; omega

def ofMilliseconds (n : UInt32) : Duration where
  nanoseconds := n.toNat * 1000000
  lt_limit := by have := n.toNat_lt; unfold limit UInt64.size; omega

/-- The whole seconds. -/
def seconds (d : Duration) : Nat := d.nanoseconds / 1000000000

/-- The part of a second that is left over. -/
def subsecond (d : Duration) : Nat := d.nanoseconds % 1000000000

end Duration

end ConsoleCore
