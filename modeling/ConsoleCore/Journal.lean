import ConsoleCore.BootChip
import ConsoleCore.Hex
import ConsoleCore.Settings

/-!
# The journal

What the console tells its user while it works: who said it, how important it is, and the text.
-/

namespace ConsoleCore

/-! ## Importance -/

/-- From the most important down. -/
inductive Level where
  | error
  | warn
  | info
  | debug
  | trace
  deriving DecidableEq, Repr

def Level.rank : Level → Nat
  | error => 1
  | warn => 2
  | info => 3
  | debug => 4
  | trace => 5

/-! ## Messages -/

inductive Message where
  /-- Power on was requested while the power was on. -/
  | restarting
  | unknownChip (print : Fingerprint)
  | bootRegister (i : Nat) (v : UInt64)
  | copyingBootCode (length source target : UInt32)
  | resetDone (tv : TvStandard) (chip : Option BootChip) (seed : UInt32)
  | taskFailed
  /-- The summary of a shutdown. The rate is in MHz. -/
  | poweredOff (instructions cycles : UInt64) (rate : Rat)
  | processorStopped (instructions : UInt64)
  | scanlinesStopped (line : Nat)
  deriving DecidableEq

namespace Message

def level : Message → Level
  | restarting => .debug
  | unknownChip _ => .warn
  | bootRegister .. => .trace
  | copyingBootCode .. => .debug
  | resetDone .. => .info
  | taskFailed => .error
  | poweredOff .. => .info
  | processorStopped _ => .debug
  | scanlinesStopped _ => .debug

/-- A rate that is not negative, with two places. Half of the last place goes up. -/
def rateText (rate : Rat) : String :=
  let hundredths := (rate * 100 + 1 / 2).floor.toNat
  let places := hundredths % 100
  s!"{hundredths / 100}.{places / 10}{places % 10}"

def poweredOffText (instructions cycles : UInt64) (rate : String) : String :=
  s!"Powered off after {instructions} instructions and {cycles} cycles ({rate} MHz)"

def text : Message → String
  | restarting => "Power on requested while running, restarting"
  | unknownChip print =>
    let long := Hex.padded 8 print.long.toNat
    let short := Hex.padded 8 print.short.toNat
    let chip := BootChip.default.name
    s!"Unknown CIC (checksums 0x{long} and 0x{short}), defaulting to the seed of the {chip}."
  | bootRegister i v =>
    let value := Hex.padded 16 v.toNat
    s!"r{i} <- 0x{value}"
  | copyingBootCode length source target =>
    let n := Hex.digits length.toNat
    let fromAddress := Hex.padded 8 source.toNat
    let toAddress := Hex.padded 8 target.toNat
    s!"Copying 0x{n} bytes of boot code from 0x{fromAddress} to 0x{toAddress}"
  | resetDone tv chip seed =>
    let standard := tv.name
    let chipName := (chip.map BootChip.name).getD "an unknown CIC"
    let value := Hex.padded 8 seed.toNat
    s!"Reset for {standard} with {chipName} (seed 0x{value})"
  | taskFailed => "A console task panicked before shutting down"
  | poweredOff instructions cycles rate => poweredOffText instructions cycles (rateText rate)
  | processorStopped instructions =>
    s!"CPU task stopped, {instructions} instructions retired so far"
  | scanlinesStopped line => s!"Video timer stopped at scanline {line}"

end Message

/-- What is said about a fingerprint: an unknown chip is worth a warning. -/
def Fingerprint.remarks (f : Fingerprint) : List Message :=
  if f.chip?.isNone then [.unknownChip f] else []

/-! ## Entries -/

/-- The threads that can speak: the caller's own and those of the two tasks. -/
inductive Speaker where
  | caller
  | processor
  | scanlines
  deriving DecidableEq, Repr

structure JournalEntry where
  speaker : Speaker
  message : Message
  deriving DecidableEq

end ConsoleCore
