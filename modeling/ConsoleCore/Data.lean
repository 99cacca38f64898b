import ConsoleCore.BootChip
import ConsoleCore.Registers
import ConsoleCore.Settings

/-!
# Stored forms

Settings, snapshots and the choices in them as plain data, to be stored and read back. A choice is
its name. A record is read from named fields or from the list of its fields in order.
-/

namespace ConsoleCore

/-- Plain data, as text formats carry it. -/
inductive Data where
  | null
  | bool (b : Bool)
  | int (n : Int)
  /-- A number that is not written as an integer. Nothing here has one. -/
  | real
  | text (s : String)
  | list (items : List Data)
  | record (fields : List (String × Data))
  deriving Inhabited

namespace Data

/-! ## Parts -/

def ofNat (n : Nat) : Data := .int n

def nat? (limit : Nat) : Data → Option Nat
  | int (.ofNat n) => if n < limit then some n else none
  | _ => none

def word? (d : Data) : Option UInt32 := (d.nat? UInt32.size).map UInt32.ofNat

def doubleWord? (d : Data) : Option UInt64 := (d.nat? UInt64.size).map UInt64.ofNat

/-- One of several choices, by its name. The name can also be the only field of a record, with
nothing in it. -/
def choice? {α : Type} (all : List α) (name : α → String) : Data → Option α
  | text s | record [(s, null)] => all.find? (name · = s)
  | _ => none

/-- The fields of a record in the order of `names`. Other fields are ignored. -/
def fields? (names : List String) : Data → Option (List Data)
  | list items => if items.length = names.length then some items else none
  | record fields => names.mapM fun name => fields.lookup name
  | _ => none

/-- The same, but other fields are refused. -/
def exactFields? (names : List String) (d : Data) : Option (List Data) :=
  match d with
  | record fields => if fields.all (fun f => names.contains f.1) then d.fields? names else none
  | _ => d.fields? names

def ofBank (b : Bank) : Data := .list (b.toList.map fun v => ofNat v.toNat)

def bank? : Data → Option Bank
  | list items => do
    let values ← items.toArray.mapM doubleWord?
    if h : values.size = 32 then some ⟨values, h⟩ else none
  | _ => none

end Data

/-! ## Choices -/

def TvStandard.toData (tv : TvStandard) : Data := .text tv.name

def TvStandard.ofData? : Data → Option TvStandard := Data.choice? all name

def BootMedium.toData (m : BootMedium) : Data := .text m.name

def BootMedium.ofData? : Data → Option BootMedium := Data.choice? all name

def ResetKind.toData (k : ResetKind) : Data := .text k.name

def ResetKind.ofData? : Data → Option ResetKind := Data.choice? all name

namespace BootChip

def all : List BootChip :=
  [nus5101, nus6101, nus7102, nus6102, nus6103, nus6105, nus6106, nus8303, iQue1, iQue2, iQue3]

/-- The short name that a boot chip is stored under. -/
def key : BootChip → String
  | nus5101 => "Nus5101"
  | nus6101 => "Nus6101"
  | nus7102 => "Nus7102"
  | nus6102 => "Nus6102"
  | nus6103 => "Nus6103"
  | nus6105 => "Nus6105"
  | nus6106 => "Nus6106"
  | nus8303 => "Nus8303"
  | iQue1 => "IQue1"
  | iQue2 => "IQue2"
  | iQue3 => "IQue3"

def toData (chip : BootChip) : Data := .text chip.key

def ofData? : Data → Option BootChip := Data.choice? all key

end BootChip

/-! ## Records -/

namespace Duration

def toData (d : Duration) : Data :=
  .record [("secs", .ofNat d.seconds), ("nanos", .ofNat d.subsecond)]

/-- Nanoseconds of a second and above are carried over into the seconds. -/
def ofData? (d : Data) : Option Duration := do
  let [seconds, nanoseconds] ← d.exactFields? ["secs", "nanos"] | none
  ofNanoseconds? ((← seconds.doubleWord?).toNat * 1000000000 + (← nanoseconds.word?).toNat)

end Duration

namespace Settings

def toData (s : Settings) : Data :=
  .record [
    ("rom_type", s.medium.toData),
    ("reset_type", s.resetKind.toData),
    ("os_version", .ofNat s.osVersion.toNat),
    ("scanline_period", s.scanlinePeriod.toData)]

def ofData? (d : Data) : Option Settings := do
  let [medium, resetKind, osVersion, scanlinePeriod] ←
    d.fields? ["rom_type", "reset_type", "os_version", "scanline_period"] | none
  return {
    medium := ← BootMedium.ofData? medium
    resetKind := ← ResetKind.ofData? resetKind
    osVersion := ← osVersion.word?
    scanlinePeriod := ← Duration.ofData? scanlinePeriod }

end Settings

namespace Snapshot

def toData (s : Snapshot) : Data :=
  .record [
    ("gpr", .ofBank s.gpr),
    ("hi", .ofNat s.hi.toNat),
    ("lo", .ofNat s.lo.toNat),
    ("pc", .ofNat s.pc.toNat),
    ("cop0", .ofBank s.cop0)]

def ofData? (d : Data) : Option Snapshot := do
  let [gpr, hi, lo, pc, cop0] ← d.fields? ["gpr", "hi", "lo", "pc", "cop0"] | none
  return {
    gpr := ← gpr.bank?
    hi := ← hi.doubleWord?
    lo := ← lo.doubleWord?
    pc := ← pc.doubleWord?
    cop0 := ← cop0.bank? }

end Snapshot

end ConsoleCore
