import ConsoleCore.Proofs.Console.PowerOn
import ConsoleCore.Proofs.Processor.Launch

/-!
# The ledger

Who executed what, in the order in which it happened: an entry for every instruction whose
execution returned, and for every processor that starts out with an empty accumulator. The ledger
is read off the executions themselves, and none of them looks at a counter.
-/

namespace ConsoleCore

variable {σ ι : Type}

inductive Owner where
  | caller
  | task
  deriving DecidableEq, Repr

/-- An instruction whose execution returned. It is not completed if the accumulator overflowed. -/
structure Receipt where
  cost : UInt64
  completed : Bool
  /-- The machine right after the bookkeeping. -/
  machine : Machine

inductive Entry where
  | created (owner : Owner) (machine : Machine)
  | executed (owner : Owner) (receipt : Receipt)

def Entry.receipt? : Entry → Option Receipt
  | created .. => none
  | executed _ r => some r

namespace Processor

def receipt (hw : Hardware σ ι) (f : InFlight ι) (p : Processor σ) : Receipt where
  cost := costOf hw f p
  completed := completes (retire hw f p)
  machine := (endState (retire hw f p)).machine

def Call.receipts (hw : Hardware σ ι) (c : Call) (p : Processor σ) : List Receipt :=
  match c.execution hw p with
  | .ok f q => [receipt hw f q]
  | .error _ _ => []

end Processor

namespace Console

/-! ## A turn of the processor's task -/

/-- What a turn does before any bookkeeping, if it does anything, and the accumulator that it
starts from. -/
def work (hw : Hardware σ ι) (c : Console σ ι) :
    Option (UInt64 × Processor.Action σ (Processor.InFlight ι × Option (Hold σ))) :=
  match c.processorTask with
  | some (.ready accumulator) => if c.powered then some (accumulator, Processor.launch hw) else none
  | some (.held accumulator f hold) =>
    if hold.wait.over c.powered (Task.arrived c.scanlineTask) then
      some (accumulator, do Processor.call hold.resume; return (f, none))
    else none
  | _ => none

def receipts (hw : Hardware σ ι) (c : Console σ ι) : List Receipt :=
  match c.work hw with
  | none => []
  | some (accumulator, act) =>
    match act ⟨c.rig, accumulator⟩ with
    | .ok (f, none) p => [Processor.receipt hw f p]
    | _ => []

inductive Work (hw : Hardware σ ι) (c : Console σ ι) (accumulator : UInt64) :
    Processor.Action σ (Processor.InFlight ι × Option (Hold σ)) → Prop where
  | launches (ready : c.processorTask = some (.ready accumulator)) :
      Work hw c accumulator (Processor.launch hw)
  | resumes {f : Processor.InFlight ι} {hold : Hold σ}
      (held : c.processorTask = some (.held accumulator f hold)) :
      Work hw c accumulator (do Processor.call hold.resume; return (f, none))

def leave (c : Console σ ι) (p : Processor σ) (task : ProcessorTask σ ι) : Console σ ι :=
  { c with rig := p.toRig, processorTask := some task }

/-- What a turn of the processor's task makes of a console, with what it executed. -/
inductive Round (hw : Hardware σ ι) (c : Console σ ι) : Console σ ι → List Receipt → Prop where
  | nothing : Round hw c c []
  | finish {accumulator : UInt64} (ready : c.processorTask = some (.ready accumulator)) :
      Round hw c c.endProcessor []
  | faults {accumulator act e p} (work : Work hw c accumulator act)
      (h : act ⟨c.rig, accumulator⟩ = .error e p) : Round hw c (c.leave p (.failed e)) []
  | waits {accumulator act f hold p} (work : Work hw c accumulator act)
      (h : act ⟨c.rig, accumulator⟩ = .ok (f, some hold) p) :
      Round hw c (c.leave p (.held p.accumulator f hold)) []
  | completes {accumulator act f p} (work : Work hw c accumulator act)
      (h : act ⟨c.rig, accumulator⟩ = .ok (f, none) p) (room : Processor.HasRoom hw f p) :
      Round hw c
        (c.leave (Processor.retired hw f p) (.ready (Processor.retired hw f p).accumulator))
        [Processor.receipt hw f p]
  | overflows {accumulator act f p} (work : Work hw c accumulator act)
      (h : act ⟨c.rig, accumulator⟩ = .ok (f, none) p) (room : ¬ Processor.HasRoom hw f p) :
      Round hw c (c.leave (Processor.charged hw f p) (.failed .accumulatorOverflow))
        [Processor.receipt hw f p]

variable {hw : Hardware σ ι} {c : Console σ ι}

theorem Work.round {accumulator : UInt64}
    {act : Processor.Action σ (Processor.InFlight ι × Option (Hold σ))}
    (work : Work hw c accumulator act) (hwork : c.work hw = some (accumulator, act)) :
    Round hw c (c.runProcessor (act >>= Processor.settle hw) accumulator) (c.receipts hw) := by
  simp only [receipts, hwork, runProcessor_eq]
  cases h : act ⟨c.rig, accumulator⟩ with
  | error e p =>
    rw [bind_of_error h]
    exact .faults work h
  | ok a p =>
    rw [bind_of_ok h]
    obtain ⟨f, _ | hold⟩ := a
    · by_cases room : Processor.HasRoom hw f p
      · have hretire : Processor.retire hw f p = .ok () (Processor.retired hw f p) := by
          rw [Processor.retire_eq, if_pos room]
        simp only [Processor.settle, bind_of_ok hretire]
        exact .completes work h room
      · have hretire : Processor.retire hw f p =
            .error .accumulatorOverflow (Processor.charged hw f p) := by
          rw [Processor.retire_eq, if_neg room]
        simp only [Processor.settle, bind_of_error hretire]
        exact .overflows work h room
    · exact .waits work h

theorem round_spec (hw : Hardware σ ι) (c : Console σ ι) :
    Round hw c (c.processorTurn hw) (c.receipts hw) := by
  have hnone (h : c.work hw = none) : c.receipts hw = [] := by simp only [receipts, h]
  unfold processorTurn
  split
  · rename_i accumulator ready
    split
    · rename_i hon
      rw [Processor.advance_eq]
      exact (Work.launches ready).round (by simp only [work, ready, if_pos hon])
    · rename_i hoff
      rw [hnone (by simp only [work, ready, if_neg hoff])]
      exact .finish ready
  · rename_i accumulator f hold held
    split
    · rename_i hover
      have hresume : Processor.resume hw f hold =
          (do Processor.call hold.resume; return (f, none)) >>= Processor.settle hw := by
        simp only [Processor.resume_eq, bind_assoc, pure_bind]
      rw [hresume]
      exact (Work.resumes held).round (by simp only [work, held, if_pos hover])
    · rename_i hwaits
      rw [hnone (by simp only [work, held, if_neg hwaits])]
      exact .nothing
  · rename_i hready hheld
    have hwork : c.work hw = none := by
      unfold work
      split
      · exact absurd ‹_› (hready _)
      · exact absurd ‹_› (hheld _ _ _)
      · rfl
    rw [hnone hwork]
    exact .nothing

/-! ## Commands -/

variable (hw)

def turnEntries (c : Console σ ι) : Turn → List Entry
  | .processor => (c.receipts hw).map (.executed .task)
  | .scanlines => []

def turnsEntries : List Turn → Console σ ι → List Entry
  | [], _ => []
  | t :: schedule, c => c.turnEntries hw t ++ turnsEntries schedule (c.turn hw t)

def shutdownEntries (c : Console σ ι) : List Entry :=
  turnsEntries hw c.joiningTurns (c.setPowered false)

def spawnEntries (host : Host) (c : Console σ ι) : List Entry :=
  match host.processorRefusal, host.scanlineRefusal with
  | some _, _ => []
  | none, some _ =>
    .created .task c.machine :: turnsEntries hw host.firstTurns c.startProcessor ++
      (c.withHeadStart hw host).shutdownEntries hw
  | none, none => .created .task c.machine :: turnsEntries hw host.firstTurns c.startProcessor

def powerOnEntries (tv : TvStandard) (host : Host) (c : Console σ ι) : List Entry :=
  c.noted.shutdownEntries hw ++
    match bootUp hw tv c.noted with
    | .ok _ d => d.spawnEntries hw host
    | .error _ _ => []

end Console

def Command.entries (hw : Hardware σ ι) (c : Console σ ι) : Command → List Entry
  | reset _ | shutdown | drop => c.shutdownEntries hw
  | powerOn tv host => c.powerOnEntries hw tv host
  | turn t => c.turnEntries hw t
  | setPowered _ | pass _ | plan _ => []

def Console.ledger (hw : Hardware σ ι) : Console σ ι → List Command → List Entry
  | _, [] => []
  | c, command :: commands =>
    command.entries hw c ++ ledger hw (command.perform hw c).2 commands

/-! ## Processors of the caller -/

structure Bench (σ ι : Type) where
  console : Console σ ι
  accumulator : UInt64 := 0

/-- What can happen to a bench. The caller makes one processor after the other, has it interpret
instructions, and can reach registers and hardware without it. -/
inductive Deed (σ : Type) where
  | command (command : Command)
  | newProcessor
  | call (c : Processor.Call)
  | registers (op : RegisterOperation)
  | hardware (f : σ → σ)

namespace Deed

def perform (hw : Hardware σ ι) (b : Bench σ ι) : Deed σ → Bench σ ι
  | command x => { b with console := (x.perform hw b.console).2 }
  | newProcessor => { b with accumulator := 0 }
  | call c =>
    let (_, accumulator, console) := b.console.withProcessor (c.perform hw) b.accumulator
    ⟨console, accumulator⟩
  | registers op => { b with console := b.console.onRegisters (·.operate op) }
  | hardware f => { b with console := b.console.onHardware f }

def entries (hw : Hardware σ ι) (b : Bench σ ι) : Deed σ → List Entry
  | command x => x.entries hw b.console
  | newProcessor => [.created .caller b.console.machine]
  | call c => (c.receipts hw ⟨b.console.rig, b.accumulator⟩).map (.executed .caller)
  | registers _ | hardware _ => []

end Deed

namespace Bench

def after (hw : Hardware σ ι) (b : Bench σ ι) (deeds : List (Deed σ)) : Bench σ ι :=
  deeds.foldl (Deed.perform hw) b

def ledger (hw : Hardware σ ι) : Bench σ ι → List (Deed σ) → List Entry
  | _, [] => []
  | b, deed :: deeds => deed.entries hw b ++ ledger hw (deed.perform hw b) deeds

end Bench

end ConsoleCore
