import ConsoleCore.Hardware
import ConsoleCore.Proofs.Action

/-!
# Hardware through a view

Hardware can do the same as another one and hold more than that, as hardware does that keeps a
record of its calls.
-/

namespace ConsoleCore

variable {σ τ ι α : Type}

def Bus.map (view : σ → τ) (b : Bus σ) : Bus τ := ⟨view b.hardware, b.registers, b.powered⟩

/-- What an instruction asks of the second hardware is what it asks of the first one, seen through
`view`. -/
structure Hardware.SeenThrough (view : σ → τ) (hw : Hardware σ ι) (hw' : Hardware τ ι) : Prop where
  fetch : ∀ address, ConsoleCore.SeenThrough (Bus.map view) (hw.fetch address) (hw'.fetch address)
  poll : ∀ delaySlot,
    ConsoleCore.SeenThrough (Bus.map view) (hw.poll delaySlot) (hw'.poll delaySlot)
  decode : ∀ opcode flags,
    ConsoleCore.SeenThrough (Bus.map view) (hw.decode opcode flags) (hw'.decode opcode flags)
  execute : ∀ i, ConsoleCore.SeenThrough (Bus.map view) (Hook.withoutWaiting (hw.execute i))
    (Hook.withoutWaiting (hw'.execute i))
  cycles : ∀ i s, hw'.cycles i (view s) = ((hw.cycles i s).1, view (hw.cycles i s).2)

theorem Hardware.SeenThrough.refl (hw : Hardware σ ι) : hw.SeenThrough id hw where
  fetch address b := by cases h : hw.fetch address b <;> exact h
  poll delaySlot b := by cases h : hw.poll delaySlot b <;> exact h
  decode opcode flags b := by cases h : hw.decode opcode flags b <;> exact h
  execute i b := by cases h : Hook.withoutWaiting (hw.execute i) b <;> exact h
  cycles _ _ := rfl

/-! ## Hardware that keeps a record -/

inductive HookCall (ι : Type) where
  | fetch (address : UInt32)
  | poll (delaySlot : Bool) (found : Registers)
  | decode (opcode : UInt32) (flags : DecodeFlags)
  | execute (i : ι) (found : Registers)
  | cycles (i : ι)
  | writeScanline (line : UInt32)
  | pollScanline (line : UInt32)
  | init
  | powerOnCop0 (found : Registers)
  | powerOnCop1 (found : Registers)

structure Recorded (σ ι : Type) where
  hardware : σ
  calls : List (HookCall ι)

namespace Recorded

def withCalls (calls : List (HookCall ι)) (hardware : σ) : Recorded σ ι := ⟨hardware, calls⟩

def after (before : List (HookCall ι)) (s : Recorded σ ι) : Recorded σ ι :=
  ⟨s.hardware, before ++ s.calls⟩

end Recorded

namespace Hook

def recorded (note : Registers → List (HookCall ι)) (h : Hook σ α) : Hook (Recorded σ ι) α :=
  fun b => viewed (Bus.map (Recorded.withCalls (b.hardware.calls ++ note b.registers)))
    (h (b.map Recorded.hardware))

variable (note : Registers → List (HookCall ι))

theorem seenThrough_hardware_recorded (h : Hook σ α) :
    SeenThrough (Bus.map Recorded.hardware) (h.recorded note) h := by
  intro b
  unfold recorded
  cases h (b.map Recorded.hardware) <;> rfl

theorem seenThrough_after_recorded (before : List (HookCall ι)) (h : Hook σ α) :
    SeenThrough (Bus.map (Recorded.after before)) (h.recorded note) (h.recorded note) := by
  intro b
  change viewed (Bus.map (Recorded.withCalls ((before ++ b.hardware.calls) ++ note b.registers)))
    (h (b.map Recorded.hardware)) = _
  rw [List.append_assoc]
  unfold recorded
  cases h (b.map Recorded.hardware) <;> rfl

/-- What is left of a call is no call of its own. -/
def holdRecorded (hold : Hold σ) : Hold (Recorded σ ι) where
  wait := hold.wait
  resume := recorded (fun _ => []) hold.resume

theorem withoutWaiting_recorded (h : Hook σ (Option (Hold σ))) :
    withoutWaiting (do return (← h.recorded note).map holdRecorded) =
      (withoutWaiting h).recorded note := by
  funext b
  unfold withoutWaiting
  cases hcall : h (b.map Recorded.hardware) with
  | error e c =>
    have hrecorded : h.recorded note b = .error e
        (c.map (Recorded.withCalls (b.hardware.calls ++ note b.registers))) := by
      unfold recorded
      rw [hcall]
      rfl
    rw [bind_of_error (bind_of_error hrecorded)]
    unfold recorded
    rw [bind_of_error hcall]
    rfl
  | ok hold c =>
    have hrecorded : h.recorded note b = .ok hold
        (c.map (Recorded.withCalls (b.hardware.calls ++ note b.registers))) := by
      unfold recorded
      rw [hcall]
      rfl
    rw [bind_assoc, bind_of_ok hrecorded, pure_bind]
    unfold recorded
    rw [bind_of_ok hcall]
    cases hold with
    | none => rfl
    | some hold =>
      change viewed (Bus.map (Recorded.withCalls ((b.hardware.calls ++ note b.registers) ++ [])))
        (hold.resume c) = _
      rw [List.append_nil]

end Hook

/-- The hardware, with a record of every call of the core. -/
def Hardware.recorded (hw : Hardware σ ι) : Hardware (Recorded σ ι) ι where
  readByte s := hw.readByte s.hardware
  writeByte s address byte := { s with hardware := hw.writeByte s.hardware address byte }
  copyRegion s source target length :=
    { s with hardware := hw.copyRegion s.hardware source target length }
  fetch address := (hw.fetch address).recorded fun _ => [.fetch address]
  poll delaySlot := (hw.poll delaySlot).recorded fun r => [.poll delaySlot r]
  decode opcode flags := (hw.decode opcode flags).recorded fun _ => [.decode opcode flags]
  execute i := do
    return (← (hw.execute i).recorded fun r => [.execute i r]).map Hook.holdRecorded
  cycles i s := ((hw.cycles i s.hardware).1, ⟨(hw.cycles i s.hardware).2, s.calls ++ [.cycles i]⟩)
  writeScanline line := (hw.writeScanline line).recorded fun _ => [.writeScanline line]
  pollScanline line := do
    return (← (hw.pollScanline line).recorded fun _ => [.pollScanline line]).map Hook.holdRecorded
  init := hw.init.recorded fun _ => [.init]
  powerOnCop0 := hw.powerOnCop0.recorded fun r => [.powerOnCop0 r]
  powerOnCop1 := hw.powerOnCop1.recorded fun r => [.powerOnCop1 r]

namespace Hardware

variable (hw : Hardware σ ι)

theorem fetch_recorded (address : UInt32) :
    hw.recorded.fetch address = (hw.fetch address).recorded fun _ => [.fetch address] := rfl

theorem poll_recorded (delaySlot : Bool) :
    hw.recorded.poll delaySlot = (hw.poll delaySlot).recorded fun r => [.poll delaySlot r] := rfl

theorem decode_recorded (opcode : UInt32) (flags : DecodeFlags) :
    hw.recorded.decode opcode flags =
      (hw.decode opcode flags).recorded fun _ => [.decode opcode flags] := rfl

theorem withoutWaiting_execute_recorded (i : ι) :
    Hook.withoutWaiting (hw.recorded.execute i) =
      (Hook.withoutWaiting (hw.execute i)).recorded fun r => [.execute i r] :=
  Hook.withoutWaiting_recorded _ _

theorem seenThrough_hardware_recorded : hw.recorded.SeenThrough Recorded.hardware hw where
  fetch address := by
    rw [fetch_recorded]
    exact Hook.seenThrough_hardware_recorded _ _
  poll delaySlot := by
    rw [poll_recorded]
    exact Hook.seenThrough_hardware_recorded _ _
  decode opcode flags := by
    rw [decode_recorded]
    exact Hook.seenThrough_hardware_recorded _ _
  execute i := by
    rw [withoutWaiting_execute_recorded]
    exact Hook.seenThrough_hardware_recorded _ _
  cycles _ _ := rfl

theorem seenThrough_after_recorded (before : List (HookCall ι)) :
    hw.recorded.SeenThrough (Recorded.after before) hw.recorded where
  fetch address := by
    rw [fetch_recorded]
    exact Hook.seenThrough_after_recorded _ _ _
  poll delaySlot := by
    rw [poll_recorded]
    exact Hook.seenThrough_after_recorded _ _ _
  decode opcode flags := by
    rw [decode_recorded]
    exact Hook.seenThrough_after_recorded _ _ _
  execute i := by
    rw [withoutWaiting_execute_recorded]
    exact Hook.seenThrough_after_recorded _ _ _
  cycles i s := by
    have hcalls : (before ++ s.calls) ++ [.cycles i] = before ++ (s.calls ++ [HookCall.cycles i]) :=
      List.append_assoc _ _ _
    simp only [recorded, Recorded.after, hcalls]

end Hardware

end ConsoleCore
