import ConsoleCore.Console.Power
import ConsoleCore.Proofs.Console.Waiting

/-!
# Switching off

A shutdown waits for both tasks and drops them. Where nothing switches the power on again, they are
at their end by then, and another shutdown has nothing to do.
-/

namespace ConsoleCore.Console

variable {σ ι : Type} (hw : Hardware σ ι) (c : Console σ ι)

/-! ## Waiting for the tasks -/

def Idle (c : Console σ ι) : Prop := c.processorTask = none ∧ c.scanlineTask = none

/-- No task is running. One that has come to its end may still be there. -/
def Ended (c : Console σ ι) : Prop :=
  Task.turnsLeft c.processorTask = 0 ∧ Task.turnsLeft c.scanlineTask = 0

theorem two_le_count_joiningTurns (t : Turn) : 2 ≤ c.joiningTurns.count t := by
  unfold joiningTurns
  rw [List.count_append]
  cases t <;> exact Nat.le_add_left 2 _

/-- Both tasks were waited for, but not dropped yet. -/
def joined : Console σ ι := (c.setPowered false).windDown hw

theorem joined_eq : c.joined hw = (c.setPowered false).turns hw c.joiningTurns := rfl

theorem sameSession_joined : SameSession (c.setPowered false) (c.joined hw) :=
  sameSession_turns hw (c.setPowered false) _

section

variable {hw c} (hhw : hw.KeepsOff) (h : c.Genuine hw)

include hhw h

theorem off_joined : (c.joined hw).powered = false := by
  have hoff : (c.setPowered false).Genuine hw := h.of_tasks rfl rfl
  exact off_turns hhw hoff rfl _

theorem turnsLeft_joined (t : Turn) : (c.joined hw).turnsLeft t = 0 := by
  have hoff : (c.setPowered false).Genuine hw := h.of_tasks rfl rfl
  have hleft := turnsLeft_turns hhw hoff rfl c.joiningTurns t
  have htwo := turnsLeft_le_two (c.setPowered false) t
  have hcount := c.two_le_count_joiningTurns t
  rw [joined_eq]
  omega

theorem ended_joined : (c.joined hw).Ended :=
  ⟨turnsLeft_joined hhw h .processor, turnsLeft_joined hhw h .scanlines⟩

end

/-! ## Switched off -/

theorem sayAll_sayAll (s : Speaker) (ms ns : List Message) :
    (c.sayAll s ms).sayAll s ns = c.sayAll s (ms ++ ns) := by
  simp only [sayAll, List.map_append, List.append_assoc]

theorem shutdown_eq :
    ∃ ms, c.shutdown hw =
      sayAll .caller ms { c.joined hw with processorTask := none, scanlineTask := none } := by
  dsimp only [shutdown]
  split
  · exact ⟨_, sayAll_sayAll _ .caller _ [_]⟩
  · exact ⟨_, rfl⟩

theorem rig_shutdown : (c.shutdown hw).rig = (c.joined hw).rig := by
  obtain ⟨ms, h⟩ := shutdown_eq hw c
  rw [h]
  rfl

theorem idle_shutdown : (c.shutdown hw).Idle := by
  obtain ⟨ms, h⟩ := shutdown_eq hw c
  rw [h]
  exact ⟨rfl, rfl⟩

theorem settings_shutdown : (c.shutdown hw).settings = c.settings := by
  obtain ⟨ms, h⟩ := shutdown_eq hw c
  rw [h]
  exact (sameSession_joined hw c).settings

variable {hw c} in
theorem off_shutdown (hhw : hw.KeepsOff) (h : c.Genuine hw) : (c.shutdown hw).powered = false := by
  unfold powered machine
  rw [rig_shutdown]
  exact off_joined hhw h

/-! ## Nothing left to do -/

variable {c}

theorem Ended.turn (h : c.Ended) (t : Turn) : c.turn hw t = c := by
  cases t with
  | processor => exact turn_of_ended hw h.1
  | scanlines => exact turn_of_ended hw h.2

theorem Ended.turns (h : c.Ended) (schedule : List Turn) : c.turns hw schedule = c :=
  turns_keeps (I := (· = c)) (by rintro _ t rfl; exact h.turn hw t) rfl schedule

theorem Ended.joined (h : c.Ended) : c.joined hw = c.setPowered false := by
  have hoff : (c.setPowered false).Ended := h
  exact hoff.turns hw _

theorem Idle.ended (h : c.Idle) : c.Ended := by
  unfold Ended
  rw [h.1, h.2]
  exact ⟨rfl, rfl⟩

theorem Idle.turn (h : c.Idle) (t : Turn) : c.turn hw t = c := h.ended.turn hw t

theorem Idle.genuine (h : c.Idle) : c.Genuine hw where
  processor _ _ _ held := by rw [h.1] at held; cases held
  scanlines _ _ _ held := by rw [h.2] at held; cases held

theorem Idle.genuine_startProcessor (h : c.Idle) : c.startProcessor.Genuine hw where
  processor := by rintro _ _ _ ⟨⟩
  scanlines := (h.genuine hw).scanlines

theorem Idle.shutdown (h : c.Idle) (hoff : c.powered = false) : c.shutdown hw = c := by
  have hset : c.setPowered false = c := by
    obtain ⟨⟨hardware, registers, powered, cycles, statistics⟩, _⟩ := c
    cases hoff
    rfl
  have hwind : c.windDown hw = c := h.ended.turns hw _
  obtain ⟨rig, settings, processorTask, scanlineTask, journal, now, lastTurns⟩ := c
  obtain ⟨rfl, rfl⟩ : processorTask = none ∧ scanlineTask = none := h
  simp only [Console.shutdown, hset, hwind, hoff]
  exact congrArg (Console.mk rig settings none none · now lastTurns) (List.append_nil journal)

theorem shutdown_shutdown (hoff : (c.shutdown hw).powered = false) :
    (c.shutdown hw).shutdown hw = c.shutdown hw :=
  (idle_shutdown hw c).shutdown hw hoff

end ConsoleCore.Console
