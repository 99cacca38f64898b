import ConsoleCore.Proofs.Console.Turns
import ConsoleCore.Proofs.Processor.Launch

/-!
# Calls that wait

A task that waits holds the rest of a call of the hardware. Once the power is off, nothing but such
a rest is left for the tasks to do. If it does not switch the power on again, the tasks come to
their end.
-/

namespace ConsoleCore

variable {σ ι α β : Type}

/-! ## Hooks that keep the power off -/

def Hook.KeepsOff (h : Hook σ α) : Prop :=
  ∀ b, b.powered = false → (endState (h b)).powered = false

def Hook.RestKeepsOff (h : Hook σ (Option (Hold σ))) : Prop :=
  ∀ b hold b', h b = .ok (some hold) b' → hold.resume.KeepsOff

/-- No hook switches the power on, except perhaps `init`, which is called with the power on. -/
structure Hardware.KeepsOff (hw : Hardware σ ι) : Prop where
  fetch : ∀ address, (hw.fetch address).KeepsOff
  poll : ∀ delaySlot, (hw.poll delaySlot).KeepsOff
  decode : ∀ opcode flags, (hw.decode opcode flags).KeepsOff
  execute : ∀ i, (hw.execute i).KeepsOff
  executeRest : ∀ i, (hw.execute i).RestKeepsOff
  writeScanline : ∀ line, (hw.writeScanline line).KeepsOff
  pollScanline : ∀ line, (hw.pollScanline line).KeepsOff
  pollScanlineRest : ∀ line, (hw.pollScanline line).RestKeepsOff
  powerOnCop0 : hw.powerOnCop0.KeepsOff
  powerOnCop1 : hw.powerOnCop1.KeepsOff

theorem Rig.keeps_off_call {h : Hook σ α} (hh : h.KeepsOff) :
    Keeps (fun r : Rig σ => r.machine.powered = false) (Rig.call h) := by
  intro r hr
  rw [endState_call]
  exact hh r.bus hr

namespace Processor

variable {hw : Hardware σ ι}

theorem keeps_off_call {h : Hook σ α} (hh : h.KeepsOff) :
    Keeps (fun p : Processor σ => p.machine.powered = false) (call h) := by
  intro p hp
  rw [toRig_call]
  exact Rig.keeps_off_call hh p.toRig hp

theorem keeps_off_retire (f : InFlight ι) :
    Keeps (fun p : Processor σ => p.machine.powered = false) (retire hw f) := by
  intro p hp
  rw [retire_eq]
  split <;> exact hp

end Processor

/-! ## Calls of the hardware -/

namespace ScanlineTimer

variable {hw : Hardware σ ι}

theorem exists_of_call_ok {h : Hook σ α} {t u : ScanlineTimer σ} {a : α}
    (hc : call h t = .ok a u) : ∃ b b', h b = .ok a b' := by
  simp only [call] at hc
  cases hrig : t.toRig.call h with
  | ok a' r =>
    rw [hrig] at hc
    cases hc
    obtain ⟨b', hb', -⟩ := Rig.call_ok_iff.mp hrig
    exact ⟨_, b', hb'⟩
  | error e r => rw [hrig] at hc; cases hc

theorem exists_pollScanline_of_advance {t u : ScanlineTimer σ} {hold : Hold σ}
    (h : advance hw t = .ok (some hold) u) :
    ∃ line b b', hw.pollScanline line b = .ok (some hold) b' := by
  unfold advance at h
  rw [bind_of_ok (get_apply t)] at h
  obtain ⟨_, _, -, h⟩ := bind_ok_iff.mp h
  obtain ⟨pending, _, hpoll, h⟩ := bind_ok_iff.mp h
  cases pending with
  | none => cases h
  | some hold' =>
    cases h
    exact ⟨_, exists_of_call_ok hpoll⟩

end ScanlineTimer

namespace Console

/-- Whatever the tasks wait in are calls of the hardware. -/
structure Genuine (hw : Hardware σ ι) (c : Console σ ι) : Prop where
  processor : ∀ accumulator f hold, c.processorTask = some (.held accumulator f hold) →
    ∃ i b b', hw.execute i b = .ok (some hold) b'
  scanlines : ∀ line pending hold, c.scanlineTask = some (.held line pending hold) →
    ∃ line b b', hw.pollScanline line b = .ok (some hold) b'

variable {hw : Hardware σ ι} {c d : Console σ ι}

theorem Genuine.of_tasks (h : c.Genuine hw) (hprocessor : d.processorTask = c.processorTask)
    (hscanlines : d.scanlineTask = c.scanlineTask) : d.Genuine hw where
  processor accumulator f hold held := h.processor accumulator f hold (hprocessor ▸ held)
  scanlines line pending hold held := h.scanlines line pending hold (hscanlines ▸ held)

theorem exists_execute_of_held {p : Processor σ} {accumulator : UInt64} {f : Processor.InFlight ι}
    {hold : Hold σ}
    (held : processorTaskAfter (Processor.advance hw p) = .held accumulator f hold) :
    ∃ i b b', hw.execute i b = .ok (some hold) b' := by
  cases h : Processor.advance hw p with
  | error e q => rw [h] at held; cases held
  | ok pending q =>
    rw [h] at held
    obtain _ | ⟨g, hold'⟩ := pending
    · cases held
    · cases held
      exact Processor.exists_execute_of_launch (Processor.launch_of_advance h)

theorem exists_pollScanline_of_held {t : ScanlineTimer σ} {line : Fin scanlines × Duration}
    {pending : Unit} {hold : Hold σ}
    (held : scanlineTaskAfter (ScanlineTimer.advance hw t) = .held line pending hold) :
    ∃ line b b', hw.pollScanline line b = .ok (some hold) b' := by
  cases h : ScanlineTimer.advance hw t with
  | error e u => rw [h] at held; cases held
  | ok pending u =>
    rw [h] at held
    obtain _ | hold' := pending
    · cases held
    · cases held
      exact ScanlineTimer.exists_pollScanline_of_advance h

theorem Genuine.processorTurn (h : c.Genuine hw) : (c.processorTurn hw).Genuine hw := by
  have hturn := processorTurn_spec hw c
  generalize c.processorTurn hw = d at hturn
  cases hturn with
  | nothing => exact h
  | round =>
    rw [runProcessor_eq]
    exact ⟨fun _ _ _ held => exists_execute_of_held (Option.some.inj held), h.scanlines⟩
  | @rest accumulator f hold =>
    rw [runProcessor_eq]
    refine ⟨fun _ _ _ held => ?_, h.scanlines⟩
    -- The rest of a call does not wait again.
    have hleft : Task.turnsLeft (some (processorTaskAfter
        (Processor.resume hw f hold ⟨c.rig, accumulator⟩))) ≤ 1 := turnsLeft_of_resume
    rw [Option.some.inj held] at hleft
    exact absurd hleft (Nat.not_succ_le_self 1)
  | finish =>
    refine ⟨?_, h.scanlines⟩
    rintro _ _ _ ⟨⟩

theorem Genuine.scanlineTurn (h : c.Genuine hw) : (c.scanlineTurn hw).Genuine hw := by
  have hturn := scanlineTurn_spec hw c
  generalize c.scanlineTurn hw = d at hturn
  cases hturn with
  | nothing => exact h
  | round =>
    rw [runScanlines_eq]
    exact ⟨h.processor, fun _ _ _ held => exists_pollScanline_of_held (Option.some.inj held)⟩
  | @rest line period hold =>
    rw [runScanlines_eq]
    refine ⟨h.processor, fun _ _ _ held => ?_⟩
    have hleft : Task.turnsLeft (some (scanlineTaskAfter
        (ScanlineTimer.resume hold ⟨c.rig, line, period⟩))) ≤ 1 := turnsLeft_of_scanline_resume
    rw [Option.some.inj held] at hleft
    exact absurd hleft (Nat.not_succ_le_self 1)
  | finish =>
    refine ⟨h.processor, ?_⟩
    rintro _ _ _ ⟨⟩

theorem Genuine.turn (h : c.Genuine hw) (t : Turn) : (c.turn hw t).Genuine hw := by
  cases t with
  | processor => exact h.processorTurn
  | scanlines => exact h.scanlineTurn

theorem Genuine.turns (h : c.Genuine hw) (schedule : List Turn) :
    (c.turns hw schedule).Genuine hw :=
  turns_keeps (fun _ t hd => hd.turn t) h schedule

/-! ## Without power -/

variable (hhw : hw.KeepsOff)

include hhw

theorem off_turn (h : c.Genuine hw) (hoff : c.powered = false) (t : Turn) :
    (c.turn hw t).powered = false := by
  cases t with
  | processor =>
    have hspec := processorTurn_spec hw c
    change (c.processorTurn hw).powered = false
    generalize c.processorTurn hw = d at hspec
    cases hspec with
    | nothing | finish => exact hoff
    -- At the head of its loop, the task would have needed the power.
    | round _ on => cases hoff.symm.trans on
    | rest held =>
      obtain ⟨i, b, b', hexecute⟩ := h.processor _ _ _ held
      rw [runProcessor_eq]
      exact Processor.keeps_resume
        (Processor.keeps_off_call (hhw.executeRest i b _ b' hexecute))
        Processor.keeps_off_retire _ ⟨c.rig, _⟩ hoff
  | scanlines =>
    have hspec := scanlineTurn_spec hw c
    change (c.scanlineTurn hw).powered = false
    generalize c.scanlineTurn hw = d at hspec
    cases hspec with
    | nothing | finish => exact hoff
    | round _ on => cases hoff.symm.trans on
    | rest held =>
      obtain ⟨line, b, b', hpoll⟩ := h.scanlines _ _ _ held
      rw [runScanlines_eq]
      exact ScanlineTimer.keeps_resume
        (Rig.keeps_off_call (hhw.pollScanlineRest line b _ b' hpoll)) ⟨c.rig, _, _⟩ hoff

theorem off_turns (h : c.Genuine hw) (hoff : c.powered = false) (schedule : List Turn) :
    (c.turns hw schedule).powered = false :=
  (turns_keeps (I := fun d => d.Genuine hw ∧ d.powered = false)
    (fun _ t hd => ⟨hd.1.turn t, off_turn hhw hd.1 hd.2 t⟩) ⟨h, hoff⟩ schedule).2

/-- Without power, every turn brings its task nearer to its end. -/
theorem turnsLeft_turns (h : c.Genuine hw) (hoff : c.powered = false) (schedule : List Turn)
    (u : Turn) : (c.turns hw schedule).turnsLeft u ≤ c.turnsLeft u - schedule.count u := by
  induction schedule generalizing c with
  | nil => exact Nat.le_refl _
  | cons t schedule ih =>
    have hrest := ih (h.turn t) (off_turn hhw h hoff t)
    change ((c.turn hw t).turns hw schedule).turnsLeft u ≤ _
    by_cases hut : u = t
    · subst hut
      have hturn := turnsLeft_turn_self hw hoff u
      rw [List.count_cons_self]
      omega
    · rw [List.count_cons_of_ne (Ne.symm hut)]
      rwa [turnsLeft_turn_of_ne hw hut] at hrest

end Console

end ConsoleCore
