import ConsoleCore.Duration

/-!
# Settings of the console

Every choice here has a code, which the boot code of the cartridge finds in a register.
-/

namespace ConsoleCore

inductive TvStandard where
  | pal
  | ntsc
  | mpal
  deriving DecidableEq, Repr

namespace TvStandard

def all : List TvStandard := [pal, ntsc, mpal]

def code : TvStandard → UInt32
  | pal => 0
  | ntsc => 1
  | mpal => 2

def name : TvStandard → String
  | pal => "Pal"
  | ntsc => "Ntsc"
  | mpal => "Mpal"

end TvStandard

inductive BootMedium where
  | cartridge
  | diskDrive
  deriving DecidableEq, Repr

namespace BootMedium

def all : List BootMedium := [cartridge, diskDrive]

def code : BootMedium → UInt32
  | cartridge => 0
  | diskDrive => 1

def name : BootMedium → String
  | cartridge => "Cartridge"
  | diskDrive => "DiskDrive"

end BootMedium

/-- What kind of reset the boot code is told about. -/
inductive ResetKind where
  | cold
  /-- A non-maskable interrupt, from the reset button. -/
  | nmi
  | bootDisk
  deriving DecidableEq, Repr

namespace ResetKind

def all : List ResetKind := [cold, nmi, bootDisk]

def code : ResetKind → UInt32
  | cold => 0
  | nmi => 1
  | bootDisk => 2

def name : ResetKind → String
  | cold => "ColdReset"
  | nmi => "Nmi"
  | bootDisk => "BootDisk"

end ResetKind

structure Settings where
  medium : BootMedium := .cartridge
  resetKind : ResetKind := .cold
  /-- The version of the boot firmware, where 0 is 1.0 and 15 is 2.5. -/
  osVersion : UInt32 := 0
  /-- How long the scanline timer waits between two lines. A real line is far shorter, but few
  hosts can sleep for so little time. -/
  scanlinePeriod : Duration := .ofMilliseconds 2
  deriving DecidableEq

end ConsoleCore
