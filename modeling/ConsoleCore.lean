import ConsoleCore.Data
import ConsoleCore.Scripted.Session
import ConsoleCore.TestBoard
import ConsoleCore.Proofs.Processor.Calls
import ConsoleCore.Proofs.Processor.Random
import ConsoleCore.Proofs.Processor.Count
import ConsoleCore.Proofs.Console.Shutdown
import ConsoleCore.Proofs.Console.Reset
import ConsoleCore.Proofs.Console.Journal
import ConsoleCore.Proofs.Console.Lifecycle
import ConsoleCore.Proofs.BootChip
import ConsoleCore.Proofs.TestBoard
import ConsoleCore.Proofs.Memory.Copy
import ConsoleCore.Proofs.Checksum.BitSerial
import ConsoleCore.Proofs.Checksum.Detection
import ConsoleCore.Proofs.Console.PowerOn
import ConsoleCore.Proofs.Console.Untouched
import ConsoleCore.Proofs.Console.Relocation
import ConsoleCore.Proofs.Console.Refusal
import ConsoleCore.Proofs.Console.Accounts
import ConsoleCore.Proofs.Console.Session
import ConsoleCore.Proofs.Console.MeasuredTime
import ConsoleCore.Proofs.Processor.Faults
import ConsoleCore.Proofs.Processor.RandomCycle
import ConsoleCore.Proofs.Processor.TimeBase
import ConsoleCore.Proofs.Processor.View
import ConsoleCore.Proofs.Processor.Recorded
import ConsoleCore.Proofs.Processor.Run
import ConsoleCore.Proofs.Processor.Poll
import ConsoleCore.Proofs.Registers.History
import ConsoleCore.Proofs.RunningTime
import ConsoleCore.Proofs.ScanlineTimer
import ConsoleCore.Proofs.Console.Scanlines
import ConsoleCore.Proofs.Console.Reports
