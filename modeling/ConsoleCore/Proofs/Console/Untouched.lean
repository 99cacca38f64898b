import ConsoleCore.Proofs.Console.PowerOn

/-!
# What calls of the hardware leave alone

Part of the hardware may be out of reach of most hooks: a counter that only `init` moves, or the
lines that the scanline timer has reported. Such a part stays as it is as long as no line is
reported.
-/

namespace ConsoleCore

variable {σ ι α β : Type}

/-! ## Hooks -/

def Hook.Spares (view : σ → β) (h : Hook σ α) : Prop :=
  ∀ b, view (endState (h b)).hardware = view b.hardware

def Hook.RestSpares (view : σ → β) (h : Hook σ (Option (Hold σ))) : Prop :=
  ∀ b hold b', h b = .ok (some hold) b' → hold.resume.Spares view

/-- No call changes `view`, but for `init` and the start of a scanline's report. -/
structure Hardware.CallsSpare (hw : Hardware σ ι) (view : σ → β) : Prop where
  copyRegion : ∀ s,
    view (hw.copyRegion s BootState.source BootState.target BootState.length) = view s
  fetch : ∀ address, (hw.fetch address).Spares view
  poll : ∀ delaySlot, (hw.poll delaySlot).Spares view
  decode : ∀ opcode flags, (hw.decode opcode flags).Spares view
  execute : ∀ i, (hw.execute i).Spares view
  executeRest : ∀ i, (hw.execute i).RestSpares view
  cycles : ∀ i s, view (hw.cycles i s).2 = view s
  pollScanlineRest : ∀ line, (hw.pollScanline line).RestSpares view
  powerOnCop0 : hw.powerOnCop0.Spares view
  powerOnCop1 : hw.powerOnCop1.Spares view

theorem Hook.Spares.withoutWaiting {view : σ → β} {h : Hook σ (Option (Hold σ))}
    (hh : h.Spares view) (hrest : h.RestSpares view) : (Hook.withoutWaiting h).Spares view := by
  intro b
  have hview := hh b
  unfold Hook.withoutWaiting
  cases hb : h b with
  | error e b' =>
    rw [hb] at hview
    rw [bind_of_error hb]
    exact hview
  | ok pending b' =>
    rw [hb] at hview
    rw [bind_of_ok hb]
    cases pending with
    | none => exact hview
    | some hold => exact (hrest b hold b' hb b').trans hview

variable {view : σ → β} {v : β} {hw : Hardware σ ι}

theorem Rig.keeps_view_call {h : Hook σ α} (hh : h.Spares view) :
    Keeps (fun r : Rig σ => view r.hardware = v) (Rig.call h) := by
  intro r hr
  rw [endState_call]
  exact (hh r.bus).trans hr

namespace Processor

theorem keeps_view_call {h : Hook σ α} (hh : h.Spares view) :
    Keeps (fun p : Processor σ => view p.hardware = v) (call h) := by
  intro p hp
  rw [toRig_call]
  exact Rig.keeps_view_call hh p.toRig hp

theorem keeps_view_retire (hhw : hw.CallsSpare view) (f : InFlight ι) :
    Keeps (fun p : Processor σ => view p.hardware = v) (retire hw f) := by
  intro p hp
  have hcycles := (hhw.cycles f.instruction p.hardware).trans hp
  rw [retire_eq]
  split <;> exact hcycles

theorem stagesKeep_view (hhw : hw.CallsSpare view) :
    StagesKeep hw fun p => view p.hardware = v where
  fetch address := keeps_view_call (hhw.fetch address)
  poll delaySlot := keeps_view_call (hhw.poll delaySlot)
  clearZero _ hp := hp
  startOver p hp := by
    unfold startOver
    split <;> exact hp
  decode opcode flags := keeps_view_call (hhw.decode opcode flags)
  execute i := keeps_view_call ((hhw.execute i).withoutWaiting (hhw.executeRest i))

theorem keeps_view_advance (hhw : hw.CallsSpare view) :
    Keeps (fun p : Processor σ => view p.hardware = v) (advance hw) :=
  (stagesKeep_view hhw).advance (fun i => keeps_view_call (hhw.execute i)) (keeps_view_retire hhw)

theorem keeps_view_resume (hhw : hw.CallsSpare view) (f : InFlight ι) {hold : Hold σ}
    (hhold : hold.resume.Spares view) :
    Keeps (fun p : Processor σ => view p.hardware = v) (resume hw f hold) :=
  keeps_resume (keeps_view_call hhold) (keeps_view_retire hhw) f

end Processor

namespace Console

/-! ## Waiting for the tasks -/

variable {c d : Console σ ι}

theorem view_processorTurn (hhw : hw.CallsSpare view) (h : c.Genuine hw) :
    view (c.processorTurn hw).rig.hardware = view c.rig.hardware := by
  have hturn := processorTurn_spec hw c
  generalize c.processorTurn hw = d at hturn
  cases hturn with
  | nothing => rfl
  | round =>
    rw [runProcessor_eq]
    exact Processor.keeps_view_advance hhw _ rfl
  | rest held =>
    obtain ⟨i, b, b', hexecute⟩ := h.processor _ _ _ held
    rw [runProcessor_eq]
    exact Processor.keeps_view_resume hhw _ (hhw.executeRest i b _ b' hexecute) _ rfl
  | finish => rfl

theorem view_scanlineTurn (hhw : hw.CallsSpare view) (h : c.Genuine hw) (hoff : c.powered = false) :
    view (c.scanlineTurn hw).rig.hardware = view c.rig.hardware := by
  have hturn := scanlineTurn_spec hw c
  generalize c.scanlineTurn hw = d at hturn
  cases hturn with
  | nothing => rfl
  | round ready on => rw [hoff] at on; cases on
  | rest held =>
    obtain ⟨line, b, b', hpoll⟩ := h.scanlines _ _ _ held
    rw [runScanlines_eq]
    exact ScanlineTimer.keeps_resume
      (Rig.keeps_view_call (hhw.pollScanlineRest line b _ b' hpoll)) _ rfl
  | finish => rfl

/-- No more lines are reported: there is no task for it, or the power is off for good. -/
def Dark (hw : Hardware σ ι) (c : Console σ ι) : Prop :=
  c.scanlineTask = none ∨ (hw.KeepsOff ∧ c.powered = false)

theorem Dark.turn (hdark : c.Dark hw) (h : c.Genuine hw) (t : Turn) : (c.turn hw t).Dark hw := by
  rcases hdark with hnone | ⟨hoffs, hoff⟩
  · left
    have hsome := (sameSession_turn hw c t).scanlines
    rw [hnone] at hsome
    exact Option.isNone_iff_eq_none.mp (Option.isSome_eq_false_iff.mp hsome)
  · exact .inr ⟨hoffs, off_turn hoffs h hoff t⟩

theorem view_turn (hhw : hw.CallsSpare view) (h : c.Genuine hw) (hdark : c.Dark hw) (t : Turn) :
    view (c.turn hw t).rig.hardware = view c.rig.hardware := by
  cases t with
  | processor => exact view_processorTurn hhw h
  | scanlines =>
    rcases hdark with hnone | ⟨-, hoff⟩
    · have hended : c.turnsLeft .scanlines = 0 := by
        unfold turnsLeft
        rw [hnone]
        rfl
      rw [turn_of_ended hw hended]
    · exact view_scanlineTurn hhw h hoff

theorem view_turns (hhw : hw.CallsSpare view) (h : c.Genuine hw) (hdark : c.Dark hw)
    (schedule : List Turn) : view (c.turns hw schedule).rig.hardware = view c.rig.hardware :=
  (turns_keeps (I := fun d => d.Genuine hw ∧ d.Dark hw ∧
      view d.rig.hardware = view c.rig.hardware)
    (fun _ t hd => ⟨hd.1.turn t, hd.2.1.turn hd.1 t, (view_turn hhw hd.1 hd.2.1 t).trans hd.2.2⟩)
    ⟨h, hdark, rfl⟩ schedule).2.2

theorem view_shutdown (hhw : hw.CallsSpare view) (h : c.Genuine hw)
    (hdark : c.scanlineTask = none ∨ hw.KeepsOff) :
    view (c.shutdown hw).rig.hardware = view c.rig.hardware := by
  have hoff : (c.setPowered false).Genuine hw := h.of_tasks rfl rfl
  rw [rig_shutdown]
  exact view_turns hhw hoff (hdark.imp_right fun hoffs => ⟨hoffs, rfl⟩) _

theorem keeps_view_call {hook : Hook σ α} (hhook : hook.Spares view) :
    Keeps (fun c : Console σ ι => view c.rig.hardware = v) (call hook) := by
  intro c hc
  rw [rig_call]
  exact Rig.keeps_view_call hhook c.rig hc

theorem view_of_reset (hcop0 : hw.powerOnCop0.Spares view) (hcop1 : hw.powerOnCop1.Spares view)
    {tv : TvStandard} {seed : UInt32} (hreset : reset hw tv c = .ok seed d) :
    view d.rig.hardware = view (hw.copyRegion (c.joined hw).rig.hardware
      BootState.source BootState.target BootState.length) := by
  rw [← rig_shutdown]
  have hend := endState_reset hw tv c (I := fun x => view x.rig.hardware = view
      (hw.copyRegion (c.shutdown hw).rig.hardware BootState.source BootState.target
        BootState.length))
    rfl (keeps_view_call hcop0) (keeps_view_call hcop1) fun _ _ _ hx => hx
  rwa [hreset] at hend

theorem view_endState_reset (hhw : hw.CallsSpare view) (h : c.Genuine hw)
    (hdark : c.scanlineTask = none ∨ hw.KeepsOff) (tv : TvStandard) :
    view (endState (reset hw tv c)).rig.hardware = view c.rig.hardware :=
  endState_reset hw tv c (I := fun x => view x.rig.hardware = view c.rig.hardware)
    ((hhw.copyRegion _).trans (view_shutdown hhw h hdark)) (keeps_view_call hhw.powerOnCop0)
    (keeps_view_call hhw.powerOnCop1) fun _ _ _ hx => hx

theorem view_reset (hhw : hw.CallsSpare view) (h : c.Genuine hw)
    (hdark : c.scanlineTask = none ∨ hw.KeepsOff) {tv : TvStandard} {seed : UInt32}
    (hreset : reset hw tv c = .ok seed d) : view d.rig.hardware = view c.rig.hardware := by
  have hend := view_endState_reset hhw h hdark tv
  rwa [hreset] at hend

theorem view_endState_bootUp (hhw : hw.CallsSpare view) (hinit : hw.init.Spares view)
    (h : c.Genuine hw) (hdark : c.scanlineTask = none ∨ hw.KeepsOff) (tv : TvStandard) :
    view (endState (bootUp hw tv c)).rig.hardware = view c.rig.hardware :=
  endState_bootUp (I := fun d => view d.rig.hardware = view c.rig.hardware)
    (view_endState_reset hhw h hdark tv) (fun _ hd => hd) (keeps_view_call hinit)

theorem view_withHeadStart (hhw : hw.CallsSpare view) (hidle : c.Idle) (host : Host) :
    view (c.withHeadStart hw host).rig.hardware = view c.rig.hardware :=
  view_turns hhw (hidle.genuine_startProcessor hw) (.inl hidle.2) host.firstTurns

theorem view_shutdown_withHeadStart (hhw : hw.CallsSpare view) (hidle : c.Idle) (host : Host) :
    view ((c.withHeadStart hw host).shutdown hw).rig.hardware = view c.rig.hardware := by
  have hgenuine : (c.withHeadStart hw host).Genuine hw :=
    (hidle.genuine_startProcessor hw).turns host.firstTurns
  exact (view_shutdown hhw hgenuine (.inl (scanlineTask_withHeadStart hidle host))).trans
    (view_withHeadStart hhw hidle host)

theorem view_spawned (hhw : hw.CallsSpare view) (hidle : c.Idle) (host : Host) :
    view (c.spawned hw host).rig.hardware = view c.rig.hardware := by
  unfold spawned
  split
  · rfl
  · exact view_shutdown_withHeadStart hhw hidle host
  · exact view_withHeadStart hhw hidle host

end Console

end ConsoleCore
