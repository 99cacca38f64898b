import ConsoleCore.Proofs.Hardware
import ConsoleCore.Proofs.Processor.Calls

/-!
# Instructions through a view

A processor can be seen with other hardware under it, as long as its hooks do the same there, and
with other statistics, which nothing that an instruction does depends on.
-/

namespace ConsoleCore

variable {σ τ ι α : Type}

namespace Processor

/-- The processor as it looks if the hardware is seen through `view` and the statistics through
`telling`. -/
def seen (view : σ → τ) (telling : Statistics → Statistics) (p : Processor σ) : Processor τ :=
  ⟨⟨view p.hardware, { p.machine with statistics := telling p.machine.statistics }⟩,
    p.accumulator⟩

variable {view : σ → τ} {telling : Statistics → Statistics}
  {hw : Hardware σ ι} {hw' : Hardware τ ι}

theorem seenThrough_call {h : Hook σ α} {h' : Hook τ α}
    (hh : SeenThrough (Bus.map view) h h') :
    SeenThrough (seen view telling) (call h) (call h') := by
  rintro ⟨⟨hardware, ⟨registers, powered, cycles, statistics⟩⟩, accumulator⟩
  have hbus := hh ⟨hardware, registers, powered⟩
  simp only [Bus.map] at hbus
  simp only [seen, call, Rig.call, hbus]
  cases h ⟨hardware, registers, powered⟩ <;> rfl

theorem seen_startOver (p : Processor σ) :
    (p.seen view telling).startOver = (p.startOver).seen view telling := by
  unfold startOver
  change (if p.accumulator ≥ accumulatorLimit then _ else _) = _
  split <;> rfl

theorem seenThrough_dispatch (hhw : hw.SeenThrough view hw') (opcode : UInt32)
    (delaySlot : Bool) :
    SeenThrough (seen view telling) (dispatch hw opcode delaySlot)
      (dispatch hw' opcode delaySlot) := by
  have hclear : SeenThrough (seen view telling)
      (modify (·.onRegisters Registers.clearZero) : Action σ PUnit)
      (modify (·.onRegisters Registers.clearZero)) := SeenThrough.modify fun _ => rfl
  have hstart : SeenThrough (seen view telling) (modify startOver : Action σ PUnit)
      (modify startOver) := SeenThrough.modify seen_startOver
  refine (seenThrough_call (hhw.poll delaySlot)).bind fun _ => ?_
  refine hclear.bind fun _ => ?_
  refine hstart.bind fun _ => ?_
  refine (seenThrough_call (hhw.decode opcode _)).bind fun i => ?_
  exact SeenThrough.get_bind fun p => SeenThrough.pure _

theorem seenThrough_retire (hhw : hw.SeenThrough view hw')
    (htelling : ∀ s total, telling (s.retire total) = (telling s).retire total)
    (f : InFlight ι) : SeenThrough (seen view telling) (retire hw f) (retire hw' f) := by
  intro p
  have hcycles := hhw.cycles f.instruction p.hardware
  have hcost : costOf hw' f (p.seen view telling) = costOf hw f p := congrArg Prod.fst hcycles
  have hcharged : charged hw' f (p.seen view telling) = (charged hw f p).seen view telling := by
    unfold charged
    rw [hcost]
    simp only [seen, hcycles, addCycles]
  have hretired : retired hw' f (p.seen view telling) = (retired hw f p).seen view telling := by
    unfold retired
    rw [hcost, hcharged]
    simp only [seen, onRegisters, onStatistics, htelling]
  have hroom : HasRoom hw' f (p.seen view telling) ↔ HasRoom hw f p := by
    unfold HasRoom
    rw [hcost]
    rfl
  simp only [retire_eq, hroom, hcharged, hretired]
  split <;> rfl

theorem seenThrough_step (hhw : hw.SeenThrough view hw')
    (htelling : ∀ s total, telling (s.retire total) = (telling s).retire total) :
    SeenThrough (seen view telling) (step hw) (step hw') := by
  refine SeenThrough.bind (SeenThrough.get_bind fun p => seenThrough_call (hhw.fetch _))
    fun opcode => ?_
  refine (seenThrough_dispatch hhw opcode false).bind fun f => ?_
  exact (seenThrough_call (hhw.execute f.instruction)).bind fun _ =>
    seenThrough_retire hhw htelling f

theorem seenThrough_steps (hhw : hw.SeenThrough view hw')
    (htelling : ∀ s total, telling (s.retire total) = (telling s).retire total) (n : Nat) :
    SeenThrough (seen view telling) (steps hw n) (steps hw' n) := by
  induction n with
  | zero => exact SeenThrough.pure ()
  | succ n ih => exact (seenThrough_step hhw htelling).bind fun _ => ih

end Processor

end ConsoleCore
