import ConsoleCore.Console.Turns
import ConsoleCore.Proofs.Processor.Calls

/-!
# What a turn can do

A turn of a task does one of four things: nothing, one round of its loop, the rest of a round that
waited, or the end of the loop. Whatever it does, it leaves the other task alone, and without power
it brings its own nearer to the end.
-/

namespace ConsoleCore

variable {σ ι α β : Type}

/-! ## What the hooks of the video side keep -/

namespace ScanlineTimer

variable {hw : Hardware σ ι} {J : Rig σ → Prop}

theorem keeps_call {h : Hook σ α} (hh : Keeps J (Rig.call h)) :
    Keeps (fun t : ScanlineTimer σ => J t.toRig) (call h) := by
  intro t ht
  have hrig := hh t.toRig ht
  simp only [call]
  cases hcall : Rig.call h t.toRig <;> rw [hcall] at hrig <;> exact hrig

theorem keeps_moveOn :
    Keeps (fun t : ScanlineTimer σ => J t.toRig) (modify moveOn : Action σ Unit) :=
  fun _ ht => ht

theorem keeps_advance (hwrite : ∀ line, Keeps J (Rig.call (hw.writeScanline line)))
    (hpoll : ∀ line, Keeps J (Rig.call (hw.pollScanline line))) :
    Keeps (fun t : ScanlineTimer σ => J t.toRig) (advance hw) := by
  refine Keeps.get.bind fun _ => (keeps_call (hwrite _)).bind fun _ =>
    (keeps_call (hpoll _)).bind fun pending => ?_
  cases pending with
  | none => exact keeps_moveOn.bind fun _ => Keeps.pure _
  | some hold => exact Keeps.pure _

theorem keeps_resume {hold : Hold σ} (hrest : Keeps J (Rig.call hold.resume)) :
    Keeps (fun t : ScanlineTimer σ => J t.toRig) (resume hold) :=
  (keeps_call hrest).bind fun _ => keeps_moveOn.bind fun _ => Keeps.pure _

end ScanlineTimer

/-! ## The four kinds of turns -/

/-- How many turns the task needs to come to its end once the power is off. -/
def Task.turnsLeft : Option (Task σ α β) → Nat
  | some (.held ..) => 2
  | some (.ready _) => 1
  | _ => 0

theorem Task.turnsLeft_le_two (t : Option (Task σ α β)) : Task.turnsLeft t ≤ 2 := by
  unfold turnsLeft
  split <;> omega

namespace Console

/-- What one turn of the processor's task makes of a console. -/
inductive ProcessorTurn (hw : Hardware σ ι) (c : Console σ ι) : Console σ ι → Prop where
  | nothing (h : c.powered = false → Task.turnsLeft c.processorTask = 0) : ProcessorTurn hw c c
  | round {accumulator : UInt64} (ready : c.processorTask = some (.ready accumulator))
      (on : c.powered = true) :
      ProcessorTurn hw c (c.runProcessor (Processor.advance hw) accumulator)
  | rest {accumulator : UInt64} {f : Processor.InFlight ι} {hold : Hold σ}
      (held : c.processorTask = some (.held accumulator f hold)) :
      ProcessorTurn hw c (c.runProcessor (Processor.resume hw f hold) accumulator)
  | finish {accumulator : UInt64} (ready : c.processorTask = some (.ready accumulator))
      (off : c.powered = false) : ProcessorTurn hw c c.endProcessor

inductive ScanlineTurn (hw : Hardware σ ι) (c : Console σ ι) : Console σ ι → Prop where
  | nothing (h : c.powered = false → Task.turnsLeft c.scanlineTask = 0) : ScanlineTurn hw c c
  | round {line : Fin scanlines} {period : Duration}
      (ready : c.scanlineTask = some (.ready (line, period))) (on : c.powered = true) :
      ScanlineTurn hw c (c.runScanlines (ScanlineTimer.advance hw) line period)
  | rest {line : Fin scanlines} {period : Duration} {hold : Hold σ}
      (held : c.scanlineTask = some (.held (line, period) () hold)) :
      ScanlineTurn hw c (c.runScanlines (ScanlineTimer.resume hold) line period)
  | finish {line : Fin scanlines} {period : Duration}
      (ready : c.scanlineTask = some (.ready (line, period))) (off : c.powered = false) :
      ScanlineTurn hw c (c.endScanlines line)

variable (hw : Hardware σ ι) (c : Console σ ι)

theorem processorTurn_spec : ProcessorTurn hw c (c.processorTurn hw) := by
  unfold processorTurn
  split
  · rename_i accumulator ready
    split
    · exact .round ready ‹_›
    · exact .finish ready ((Bool.not_eq_true _).mp ‹_›)
  · rename_i accumulator f hold held
    split
    · exact .rest held
    · rename_i hwait
      refine .nothing fun off => ?_
      rw [off, Wait.over_of_off] at hwait
      exact absurd rfl hwait
  · rename_i hready hheld
    refine .nothing fun _ => ?_
    unfold Task.turnsLeft
    split
    · exact absurd ‹_› (hheld _ _ _)
    · exact absurd ‹_› (hready _)
    · rfl

theorem scanlineTurn_spec : ScanlineTurn hw c (c.scanlineTurn hw) := by
  unfold scanlineTurn
  split
  · rename_i line period ready
    split
    · exact .round ready ‹_›
    · exact .finish ready ((Bool.not_eq_true _).mp ‹_›)
  · rename_i line period _ hold held
    split
    · exact .rest held
    · rename_i hwait
      refine .nothing fun off => ?_
      rw [off, Wait.over_of_off] at hwait
      exact absurd rfl hwait
  · rename_i hready hheld
    refine .nothing fun _ => ?_
    unfold Task.turnsLeft
    split
    · exact absurd ‹_› (hheld _ _ _ _)
    · exact absurd ‹_› (hready _ _)
    · rfl

theorem rig_call (h : Hook σ α) (c : Console σ ι) :
    (endState (call h c)).rig = endState (c.rig.call h) := by
  simp only [call]
  cases c.rig.call h <;> rfl

theorem processorTask_call (h : Hook σ α) (c : Console σ ι) :
    (endState (call h c)).processorTask = c.processorTask := by
  simp only [call]
  cases c.rig.call h <;> rfl

theorem scanlineTask_call (h : Hook σ α) (c : Console σ ι) :
    (endState (call h c)).scanlineTask = c.scanlineTask := by
  simp only [call]
  cases c.rig.call h <;> rfl

/-! ## What a turn leaves alone -/

def processorTaskAfter :
    EStateM.Result Fault (Processor σ) (Option (Processor.InFlight ι × Hold σ)) → ProcessorTask σ ι
  | .ok none p => .ready p.accumulator
  | .ok (some (f, hold)) p => .held p.accumulator f hold
  | .error e _ => .failed e

def scanlineTaskAfter :
    EStateM.Result Fault (ScanlineTimer σ) (Option (Hold σ)) → ScanlineTask σ
  | .ok none t => .ready (t.line, t.period)
  | .ok (some hold) t => .held (t.line, t.period) () hold
  | .error e _ => .failed e

theorem runProcessor_eq (act : Processor.Action σ (Option (Processor.InFlight ι × Hold σ)))
    (accumulator : UInt64) :
    c.runProcessor act accumulator =
      { c with
        rig := (endState (act ⟨c.rig, accumulator⟩)).toRig
        processorTask := some (processorTaskAfter (act ⟨c.rig, accumulator⟩)) } := by
  obtain ⟨rig, settings, _, scanlineTask, journal, now, lastTurns⟩ := c
  simp only [runProcessor]
  rcases act ⟨rig, accumulator⟩ with ⟨_ | ⟨f, hold⟩, p⟩ | ⟨e, p⟩ <;> rfl

theorem runScanlines_eq (act : ScanlineTimer.Action σ (Option (Hold σ)))
    (line : Fin scanlines) (period : Duration) :
    c.runScanlines act line period =
      { c with
        rig := (endState (act ⟨c.rig, line, period⟩)).toRig
        scanlineTask := some (scanlineTaskAfter (act ⟨c.rig, line, period⟩)) } := by
  obtain ⟨rig, settings, processorTask, _, journal, now, lastTurns⟩ := c
  simp only [runScanlines]
  rcases act ⟨rig, line, period⟩ with ⟨_ | hold, t⟩ | ⟨e, t⟩ <;> rfl

variable {hw c} {d : Console σ ι}

/-- What turns leave alone: the settings, and which tasks there are. -/
structure SameSession (c d : Console σ ι) : Prop where
  settings : d.settings = c.settings
  processor : d.processorTask.isSome = c.processorTask.isSome
  scanlines : d.scanlineTask.isSome = c.scanlineTask.isSome

theorem SameSession.refl (c : Console σ ι) : SameSession c c := ⟨rfl, rfl, rfl⟩

theorem SameSession.trans {e : Console σ ι} (h : SameSession c d) (h' : SameSession d e) :
    SameSession c e where
  settings := h'.settings.trans h.settings
  processor := h'.processor.trans h.processor
  scanlines := h'.scanlines.trans h.scanlines

theorem ProcessorTurn.sameSession (h : ProcessorTurn hw c d) : SameSession c d := by
  cases h with
  | nothing => exact .refl c
  | round task | rest task =>
    rw [runProcessor_eq]
    exact ⟨rfl, by rw [task]; rfl, rfl⟩
  | finish ready => exact ⟨rfl, by rw [ready]; rfl, rfl⟩

theorem ProcessorTurn.scanlineTask_eq (h : ProcessorTurn hw c d) :
    d.scanlineTask = c.scanlineTask := by
  cases h with
  | nothing => rfl
  | round | rest => rw [runProcessor_eq]
  | finish => rfl

theorem ScanlineTurn.processorTask_eq (h : ScanlineTurn hw c d) :
    d.processorTask = c.processorTask := by
  cases h with
  | nothing => rfl
  | round | rest => rw [runScanlines_eq]
  | finish => rfl

theorem ScanlineTurn.sameSession (h : ScanlineTurn hw c d) : SameSession c d := by
  cases h with
  | nothing => exact .refl c
  | round task | rest task =>
    rw [runScanlines_eq]
    exact ⟨rfl, rfl, by rw [task]; rfl⟩
  | finish ready => exact ⟨rfl, rfl, by rw [ready]; rfl⟩

theorem ScanlineTurn.rig_keeps {J : Rig σ → Prop} (h : ScanlineTurn hw c d)
    (hwrite : ∀ line, Keeps J (Rig.call (hw.writeScanline line)))
    (hpoll : ∀ line, Keeps J (Rig.call (hw.pollScanline line)))
    (hrest : ∀ line pending hold, c.scanlineTask = some (.held line pending hold) →
      Keeps J (Rig.call hold.resume))
    (hc : J c.rig) : J d.rig := by
  cases h with
  | nothing => exact hc
  | round =>
    rw [runScanlines_eq]
    exact ScanlineTimer.keeps_advance hwrite hpoll _ hc
  | rest held =>
    rw [runScanlines_eq]
    exact ScanlineTimer.keeps_resume (hrest _ _ _ held) _ hc
  | finish => exact hc

variable (hw c)

theorem sameSession_turn (t : Turn) : SameSession c (c.turn hw t) := by
  cases t with
  | processor => exact (processorTurn_spec hw c).sameSession
  | scanlines => exact (scanlineTurn_spec hw c).sameSession

variable {hw c} in
/-- What one turn keeps, every schedule keeps. -/
theorem turns_keeps {I : Console σ ι → Prop} (h : ∀ d t, I d → I (d.turn hw t)) (hc : I c)
    (schedule : List Turn) : I (c.turns hw schedule) := by
  induction schedule generalizing c with
  | nil => exact hc
  | cons t schedule ih => exact ih (h c t hc)

theorem sameSession_turns (schedule : List Turn) : SameSession c (c.turns hw schedule) :=
  turns_keeps (fun d t hd => hd.trans (sameSession_turn hw d t)) (.refl c) schedule

variable {hw c}

/-! ## The way to the end -/

theorem turnsLeft_of_resume {f : Processor.InFlight ι} {hold : Hold σ} {p : Processor σ} :
    Task.turnsLeft (some (processorTaskAfter (Processor.resume hw f hold p))) ≤ 1 := by
  cases h : Processor.resume hw f hold p with
  | error => exact Nat.zero_le 1
  | ok pending q =>
    obtain ⟨_, _, -, h⟩ := bind_ok_iff.mp h
    obtain ⟨_, _, -, h⟩ := bind_ok_iff.mp h
    cases h
    exact Nat.le_refl 1

theorem turnsLeft_of_scanline_resume {hold : Hold σ} {t : ScanlineTimer σ} :
    Task.turnsLeft (some (scanlineTaskAfter (ScanlineTimer.resume hold t))) ≤ 1 := by
  cases h : ScanlineTimer.resume hold t with
  | error => exact Nat.zero_le 1
  | ok pending q =>
    obtain ⟨_, _, -, h⟩ := bind_ok_iff.mp h
    obtain ⟨_, _, -, h⟩ := bind_ok_iff.mp h
    cases h
    exact Nat.le_refl 1

theorem ProcessorTurn.turnsLeft_le (h : ProcessorTurn hw c d) (hoff : c.powered = false) :
    Task.turnsLeft d.processorTask ≤ Task.turnsLeft c.processorTask - 1 := by
  cases h with
  | nothing h =>
    have hnone := h hoff
    omega
  | round _ on => rw [hoff] at on; cases on
  | rest held =>
    rw [runProcessor_eq, held]
    exact turnsLeft_of_resume
  | finish => exact Nat.zero_le _

theorem ScanlineTurn.turnsLeft_le (h : ScanlineTurn hw c d) (hoff : c.powered = false) :
    Task.turnsLeft d.scanlineTask ≤ Task.turnsLeft c.scanlineTask - 1 := by
  cases h with
  | nothing h =>
    have hnone := h hoff
    omega
  | round _ on => rw [hoff] at on; cases on
  | rest held =>
    rw [runScanlines_eq, held]
    exact turnsLeft_of_scanline_resume
  | finish => exact Nat.zero_le _

/-! ## Either task -/

def turnsLeft (c : Console σ ι) : Turn → Nat
  | .processor => Task.turnsLeft c.processorTask
  | .scanlines => Task.turnsLeft c.scanlineTask

theorem turnsLeft_le_two (c : Console σ ι) (t : Turn) : c.turnsLeft t ≤ 2 := by
  cases t <;> exact Task.turnsLeft_le_two _

variable (hw)

theorem turnsLeft_turn_self (hoff : c.powered = false) (t : Turn) :
    (c.turn hw t).turnsLeft t ≤ c.turnsLeft t - 1 := by
  cases t with
  | processor => exact (processorTurn_spec hw c).turnsLeft_le hoff
  | scanlines => exact (scanlineTurn_spec hw c).turnsLeft_le hoff

theorem turnsLeft_turn_of_ne {t u : Turn} (h : u ≠ t) :
    (c.turn hw t).turnsLeft u = c.turnsLeft u := by
  cases t with
  | processor =>
    cases u with
    | processor => exact absurd rfl h
    | scanlines => exact congrArg Task.turnsLeft (processorTurn_spec hw c).scanlineTask_eq
  | scanlines =>
    cases u with
    | processor => exact congrArg Task.turnsLeft (scanlineTurn_spec hw c).processorTask_eq
    | scanlines => exact absurd rfl h

theorem turn_of_ended {t : Turn} (h : c.turnsLeft t = 0) : c.turn hw t = c := by
  cases t with
  | processor =>
    have hspec := processorTurn_spec hw c
    change c.processorTurn hw = c
    generalize c.processorTurn hw = d at hspec
    change Task.turnsLeft c.processorTask = 0 at h
    cases hspec with
    | nothing => rfl
    | round task | rest task | finish task => rw [task] at h; cases h
  | scanlines =>
    have hspec := scanlineTurn_spec hw c
    change c.scanlineTurn hw = c
    generalize c.scanlineTurn hw = d at hspec
    change Task.turnsLeft c.scanlineTask = 0 at h
    cases hspec with
    | nothing => rfl
    | round task | rest task | finish task => rw [task] at h; cases h

theorem processorTask_turns_of_ended (h : c.turnsLeft .processor = 0) (schedule : List Turn) :
    (c.turns hw schedule).processorTask = c.processorTask := by
  refine turns_keeps (I := fun d => d.processorTask = c.processorTask) (fun d t hd => ?_) rfl
    schedule
  cases t with
  | processor =>
    have hd' : d.turnsLeft .processor = 0 := (congrArg Task.turnsLeft hd).trans h
    rw [turn_of_ended hw hd']
    exact hd
  | scanlines => exact (scanlineTurn_spec hw d).processorTask_eq.trans hd

end Console

end ConsoleCore
