import ConsoleCore.TestBoard
import ConsoleCore.Proofs.Console.Untouched
import ConsoleCore.Proofs.ScanlineTimer

/-!
# The lines of a session

Every session of a console reports the lines in order and begins at the first one. The tasks
themselves, and whoever switches the power off, decide how far it gets.
-/

namespace ConsoleCore

variable {σ ι : Type}

/-! ## Calls of the video side -/

def HookCall.isVideo : HookCall ι → Bool
  | writeScanline _ | pollScanline _ => true
  | _ => false

def Recorded.videoCalls (s : Recorded σ ι) : List (HookCall ι) := s.calls.filter HookCall.isVideo

theorem Recorded.videoCalls_append {s s' : Recorded σ ι} {calls : List (HookCall ι)}
    (h : s'.calls = s.calls ++ calls) :
    s'.videoCalls = s.videoCalls ++ calls.filter HookCall.isVideo := by
  unfold videoCalls
  rw [h, List.filter_append]

theorem Recorded.videoCalls_of_silent {s s' : Recorded σ ι} (calls : List (HookCall ι))
    (h : s'.calls = s.calls ++ calls) (hsilent : calls.filter HookCall.isVideo = []) :
    s'.videoCalls = s.videoCalls := by
  rw [videoCalls_append h, hsilent, List.append_nil]

namespace Hook

variable (note : Registers → List (HookCall ι))

theorem spares_recorded (hsilent : ∀ r, (note r).filter HookCall.isVideo = []) {α : Type}
    (h : Hook σ α) : (h.recorded note).Spares Recorded.videoCalls := fun b =>
  Recorded.videoCalls_of_silent (note b.registers) (calls_recorded note b h) (hsilent _)

theorem restSpares_recorded (h : Hook σ (Option (Hold σ))) :
    RestSpares Recorded.videoCalls
      (do return (← h.recorded note).map holdRecorded :
        Hook (Recorded σ ι) (Option (Hold (Recorded σ ι)))) := by
  intro b hold b' hcall
  obtain ⟨pending, _, -, hpure⟩ := bind_ok_iff.mp hcall
  cases pending with
  | none => cases hpure
  | some hold' =>
    cases hpure
    exact spares_recorded (fun _ => []) (fun _ => rfl) hold'.resume

theorem KeepsOff.recorded {α : Type} {h : Hook σ α} (hh : h.KeepsOff) :
    (h.recorded note).KeepsOff := by
  intro b hb
  unfold Hook.recorded
  rw [endState_viewed]
  exact hh (b.map Recorded.hardware) hb

theorem keepsOff_recorded_waiting {h : Hook σ (Option (Hold σ))} (hh : h.KeepsOff) :
    KeepsOff (do return (← h.recorded note).map holdRecorded :
      Hook (Recorded σ ι) (Option (Hold (Recorded σ ι)))) := by
  have hkept : Keeps (fun b : Bus (Recorded σ ι) => b.powered = false) (h.recorded note) :=
    hh.recorded note
  exact hkept.bind fun _ => Keeps.pure _

theorem restKeepsOff_recorded {h : Hook σ (Option (Hold σ))} (hh : h.RestKeepsOff) :
    RestKeepsOff (do return (← h.recorded note).map holdRecorded :
      Hook (Recorded σ ι) (Option (Hold (Recorded σ ι)))) := by
  intro b hold b' hcall
  obtain ⟨pending, _, hrecorded, hpure⟩ := bind_ok_iff.mp hcall
  cases pending with
  | none => cases hpure
  | some hold' =>
    cases hpure
    unfold Hook.recorded at hrecorded
    cases hr : h (b.map Recorded.hardware) with
    | error e c => rw [hr] at hrecorded; cases hrecorded
    | ok pending c =>
      rw [hr] at hrecorded
      cases hrecorded
      exact (hh _ hold' c hr).recorded fun _ => []

end Hook

theorem Hardware.KeepsOff.recorded {hw : Hardware σ ι} (h : hw.KeepsOff) :
    hw.recorded.KeepsOff where
  fetch address := (h.fetch address).recorded fun _ => [.fetch address]
  poll delaySlot := (h.poll delaySlot).recorded fun r => [.poll delaySlot r]
  decode opcode flags := (h.decode opcode flags).recorded fun _ => [.decode opcode flags]
  execute i := Hook.keepsOff_recorded_waiting _ (h.execute i)
  executeRest i := Hook.restKeepsOff_recorded _ (h.executeRest i)
  writeScanline line := (h.writeScanline line).recorded fun _ => [.writeScanline line]
  pollScanline line := Hook.keepsOff_recorded_waiting _ (h.pollScanline line)
  pollScanlineRest line := Hook.restKeepsOff_recorded _ (h.pollScanlineRest line)
  powerOnCop0 := h.powerOnCop0.recorded fun r => [.powerOnCop0 r]
  powerOnCop1 := h.powerOnCop1.recorded fun r => [.powerOnCop1 r]

theorem Hardware.recorded_callsSpare (hw : Hardware σ ι) :
    hw.recorded.CallsSpare Recorded.videoCalls where
  copyRegion _ := rfl
  fetch address := Hook.spares_recorded (fun _ => [.fetch address]) (fun _ => rfl) (hw.fetch address)
  poll delaySlot :=
    Hook.spares_recorded (fun r => [.poll delaySlot r]) (fun _ => rfl) (hw.poll delaySlot)
  decode opcode flags :=
    Hook.spares_recorded (fun _ => [.decode opcode flags]) (fun _ => rfl) (hw.decode opcode flags)
  execute i b := Recorded.videoCalls_of_silent [.execute i b.registers]
    (Hook.calls_recorded_waiting (fun r => [.execute i r]) b (hw.execute i)) rfl
  executeRest _ := Hook.restSpares_recorded _ _
  cycles i _ := Recorded.videoCalls_of_silent [.cycles i] rfl rfl
  pollScanlineRest _ := Hook.restSpares_recorded _ _
  powerOnCop0 := Hook.spares_recorded (fun r => [.powerOnCop0 r]) (fun _ => rfl) hw.powerOnCop0
  powerOnCop1 := Hook.spares_recorded (fun r => [.powerOnCop1 r]) (fun _ => rfl) hw.powerOnCop1

theorem Hardware.init_recorded_spares (hw : Hardware σ ι) :
    hw.recorded.init.Spares Recorded.videoCalls :=
  Hook.spares_recorded (fun _ => [.init]) (fun _ => rfl) hw.init

open ScanlineTimer (lineAfter nextLine nextLine_lineAfter report callsMade)

theorem ScanlineTimer.filter_report (line : Fin scanlines) (n : Nat) :
    ((report line : List (HookCall ι)).take n).filter HookCall.isVideo = (report line).take n := by
  refine List.filter_eq_self.mpr fun a ha => ?_
  have hmem := List.mem_of_mem_take ha
  simp only [report, List.mem_cons, List.not_mem_nil, or_false] at hmem
  rcases hmem with rfl | rfl <;> rfl

/-! ## Sessions -/

/-- How far the scanline timer has got in a session. -/
structure Session where
  completed : Nat
  /-- The calls that the tick after those has made so far. -/
  underWay : Nat

namespace Session

def calls (s : Session) : List (HookCall ι) :=
  (List.range s.completed).flatMap (fun k => report (lineAfter k)) ++
    (report (lineAfter s.completed)).take s.underWay

theorem calls_finished (n : Nat) :
    (⟨n, 2⟩ : Session).calls = ((⟨n + 1, 0⟩ : Session).calls : List (HookCall ι)) := by
  simp only [calls, List.range_succ, List.flatMap_append, List.flatMap_cons, List.flatMap_nil,
    List.append_nil, List.take_zero]
  rfl

theorem calls_begun (n made : Nat) :
    (⟨n, 0⟩ : Session).calls ++ (report (lineAfter n)).take made =
      ((⟨n, made⟩ : Session).calls : List (HookCall ι)) := by
  simp only [calls, List.take_zero, List.append_nil]

/-- The task is where the session has got. -/
inductive At : Session → ScanlineTask σ → Prop where
  | ready {n : Nat} {period : Duration} : At ⟨n, 0⟩ (.ready (lineAfter n, period))
  | held {n : Nat} {period : Duration} {pending : Unit} {hold : Hold σ} :
      At ⟨n, 2⟩ (.held (lineAfter n, period) pending hold)
  | stopped {n : Nat} : At ⟨n, 0⟩ .stopped
  | failed {n made : Nat} {e : Fault} (begun : made = 1 ∨ made = 2) : At ⟨n, made⟩ (.failed e)

variable {n : Nat} {period : Duration} {t : ScanlineTimer σ}

theorem At.ready_of_isAt (h : t.IsAt (lineAfter n) period) :
    At ⟨n, 0⟩ (.ready (t.line, t.period) : ScanlineTask σ) := by
  rw [h.1]
  exact .ready

theorem At.held_of_isAt (h : t.IsAt (lineAfter n) period) {hold : Hold σ} :
    At ⟨n, 2⟩ (.held (t.line, t.period) () hold : ScanlineTask σ) := by
  rw [h.1]
  exact .held

end Session

namespace Console

variable {hw : Hardware σ ι} {c d : Console (Recorded σ ι) ι} {past : List (HookCall ι)}
  {s : Session}

def videoCalls (c : Console (Recorded σ ι) ι) : List (HookCall ι) := c.rig.hardware.videoCalls

/-- What was recorded after `past` are the calls of the session, and the task is where it has got. -/
structure Reports (past : List (HookCall ι)) (s : Session) (c : Console (Recorded σ ι) ι) :
    Prop where
  calls : c.videoCalls = past ++ s.calls
  current : ∀ task, c.scanlineTask = some task → s.At task

theorem Reports.of_silent (h : c.Reports past s) (hcalls : d.videoCalls = c.videoCalls)
    (htask : d.scanlineTask = none ∨ d.scanlineTask = c.scanlineTask) : d.Reports past s where
  calls := hcalls.trans h.calls
  current task ht := by
    rcases htask with hnone | hsame
    · cases hnone.symm.trans ht
    · exact h.current task (hsame.symm.trans ht)

theorem Reports.step {s' : Session} {m : List (HookCall ι)} {task : ScanlineTask (Recorded σ ι)}
    (h : c.Reports past s) (hcalls : d.videoCalls = c.videoCalls ++ m)
    (hs : s'.calls = s.calls ++ m) (htask : d.scanlineTask = some task) (hat : s'.At task) :
    d.Reports past s' where
  calls := by rw [hcalls, h.calls, hs, List.append_assoc]
  current task' htask' := by
    cases htask.symm.trans htask'
    exact hat

/-! ## One turn -/

theorem at_advance (hw : Hardware σ ι) {n : Nat} {t : ScanlineTimer (Recorded σ ι)}
    (hline : t.line = lineAfter n) :
    ∃ s : Session, s.At (scanlineTaskAfter (ScanlineTimer.advance hw.recorded t)) ∧
      (s.calls : List (HookCall ι)) =
        (⟨n, 0⟩ : Session).calls ++ (report (lineAfter n)).take (callsMade hw t) := by
  cases hr : ScanlineTimer.advance hw.recorded t with
  | error e u =>
    have hmade : callsMade hw t = 1 ∨ callsMade hw t = 2 := by
      unfold callsMade
      split
      · exact .inr rfl
      · exact .inl rfl
    exact ⟨⟨n, callsMade hw t⟩, .failed hmade, (Session.calls_begun _ _).symm⟩
  | ok pending u =>
    unfold ScanlineTimer.advance at hr
    rw [bind_of_ok (get_apply t)] at hr
    obtain ⟨_, t₁, hwrite, hr⟩ := bind_ok_iff.mp hr
    obtain ⟨pending', t₂, hpoll, hr⟩ := bind_ok_iff.mp hr
    have h₁ : t₁.IsAt t.line t.period := (ScanlineTimer.keeps_isAt_call _).of_ok ⟨rfl, rfl⟩ hwrite
    have h₂ : t₂.IsAt t.line t.period := (ScanlineTimer.keeps_isAt_call _).of_ok h₁ hpoll
    have hmade : callsMade hw t = 2 := ScanlineTimer.callsMade_of_write hw hwrite
    rw [hline] at h₂
    rw [hmade, Session.calls_begun]
    cases pending' with
    | none =>
      cases hr
      have hmoved := h₂.moveOn
      rw [nextLine_lineAfter] at hmoved
      exact ⟨⟨n + 1, 0⟩, .ready_of_isAt hmoved, (Session.calls_finished n).symm⟩
    | some hold =>
      cases hr
      exact ⟨⟨n, 2⟩, .held_of_isAt h₂, rfl⟩

theorem at_resume {n : Nat} {t : ScanlineTimer (Recorded σ ι)} (hline : t.line = lineAfter n)
    (hold : Hold (Recorded σ ι)) :
    ∃ s : Session, s.At (scanlineTaskAfter (ScanlineTimer.resume hold t)) ∧
      (s.calls : List (HookCall ι)) = (⟨n, 2⟩ : Session).calls := by
  cases hr : ScanlineTimer.resume hold t with
  | error e u => exact ⟨⟨n, 2⟩, .failed (.inr rfl), rfl⟩
  | ok pending u =>
    obtain ⟨_, t₁, hcall, hr⟩ := bind_ok_iff.mp hr
    have h₁ : t₁.IsAt t.line t.period := (ScanlineTimer.keeps_isAt_call _).of_ok ⟨rfl, rfl⟩ hcall
    cases hr
    have hmoved := h₁.moveOn
    rw [hline, nextLine_lineAfter] at hmoved
    exact ⟨⟨n + 1, 0⟩, .ready_of_isAt hmoved, (Session.calls_finished n).symm⟩

theorem Reports.scanlineTurn (h : c.Reports past s) (hgenuine : c.Genuine hw.recorded) :
    ∃ s', (c.scanlineTurn hw.recorded).Reports past s' := by
  have hturn := scanlineTurn_spec hw.recorded c
  generalize c.scanlineTurn hw.recorded = d at hturn
  cases hturn with
  | nothing => exact ⟨s, h⟩
  | @round line period ready on =>
    cases h.current _ ready with
    | @ready n =>
      have hcalls := Recorded.videoCalls_append
        (ScanlineTimer.calls_advance hw ⟨c.rig, lineAfter n, period⟩)
      rw [ScanlineTimer.filter_report] at hcalls
      obtain ⟨s', hat, hs⟩ := at_advance hw (t := ⟨c.rig, lineAfter n, period⟩) rfl
      rw [runScanlines_eq]
      exact ⟨s', h.step hcalls hs rfl hat⟩
  | @rest line period hold held =>
    cases h.current _ held with
    | @held n =>
      -- The rest of a poll makes no call of its own.
      obtain ⟨line, b, b', hpoll⟩ := hgenuine.scanlines _ _ _ held
      have hview := ScanlineTimer.keeps_resume (Rig.keeps_view_call
        (hw.recorded_callsSpare.pollScanlineRest line b _ b' hpoll)) ⟨c.rig, lineAfter n, period⟩ rfl
      obtain ⟨s', hat, hs⟩ := at_resume (t := ⟨c.rig, lineAfter n, period⟩) rfl hold
      rw [runScanlines_eq]
      refine ⟨s', h.step (m := []) ?_ ?_ rfl hat⟩
      · rw [List.append_nil]
        exact hview
      · rw [List.append_nil]
        exact hs
  | finish ready off =>
    cases h.current _ ready with
    | @ready n =>
      refine ⟨⟨n, 0⟩, h.calls, ?_⟩
      rintro _ ⟨⟩
      exact .stopped

theorem Reports.turn (h : c.Reports past s) (hgenuine : c.Genuine hw.recorded) (t : Turn) :
    ∃ s', (c.turn hw.recorded t).Reports past s' := by
  cases t with
  | processor =>
    exact ⟨s, h.of_silent (view_processorTurn hw.recorded_callsSpare hgenuine)
      (.inr (processorTurn_spec hw.recorded c).scanlineTask_eq)⟩
  | scanlines => exact h.scanlineTurn hgenuine

/-- If the task is at the head of its loop and the power is on, its next turn reports the line that
comes next. -/
def ReportsNext (hw : Hardware σ ι) (s : Session) (c : Console (Recorded σ ι) ι) : Prop :=
  ∀ line period, c.scanlineTask = some (.ready (line, period)) → c.powered = true →
    line = lineAfter s.completed ∧
    (c.turn hw.recorded .scanlines).videoCalls =
      c.videoCalls ++ (report line).take (callsMade hw ⟨c.rig, line, period⟩)

theorem Reports.reportsNext (h : c.Reports past s) : c.ReportsNext hw s := by
  intro line period ready on
  have hturn : c.turn hw.recorded .scanlines =
      c.runScanlines (ScanlineTimer.advance hw.recorded) line period := by
    simp only [Console.turn, Console.scanlineTurn, ready, on, if_true]
  constructor
  · cases h.current _ ready with
    | ready => rfl
  · have hcalls := Recorded.videoCalls_append
      (ScanlineTimer.calls_advance hw ⟨c.rig, line, period⟩)
    rw [ScanlineTimer.filter_report] at hcalls
    rw [hturn, runScanlines_eq]
    exact hcalls

/-! ## One command -/

theorem Reports.shutdown (h : c.Reports past s) (hgenuine : c.Genuine hw.recorded) :
    ∃ s', (c.shutdown hw.recorded).Reports past s' := by
  have hoff : (c.setPowered false).Reports past s := h.of_silent rfl (.inr rfl)
  have hoffGenuine : (c.setPowered false).Genuine hw.recorded := hgenuine.of_tasks rfl rfl
  obtain ⟨-, s', hjoined⟩ := turns_keeps
    (I := fun d => d.Genuine hw.recorded ∧ ∃ s', d.Reports past s')
    (fun _ t ⟨hd, _, h'⟩ => ⟨hd.turn t, h'.turn hd t⟩) ⟨hoffGenuine, s, hoff⟩ c.joiningTurns
  refine ⟨s', hjoined.of_silent ?_ (.inl (idle_shutdown hw.recorded c).2)⟩
  exact congrArg (·.hardware.videoCalls) (rig_shutdown hw.recorded c)

theorem keeps_reports_call {hook : Hook (Recorded σ ι) Unit}
    (hhook : hook.Spares Recorded.videoCalls) :
    Keeps (fun d : Console (Recorded σ ι) ι => d.Reports past s) (call hook) := by
  intro d hd
  exact hd.of_silent (keeps_view_call hhook d rfl) (.inr (scanlineTask_call hook d))

theorem Reports.reset (h : c.Reports past s) (hgenuine : c.Genuine hw.recorded) (tv : TvStandard) :
    ∃ s', (endState (reset hw.recorded tv c)).Reports past s' := by
  obtain ⟨s', hoff⟩ := h.shutdown hgenuine
  exact ⟨s', endState_reset hw.recorded tv c (I := fun d => d.Reports past s')
    (hoff.of_silent rfl (.inr rfl)) (keeps_reports_call hw.recorded_callsSpare.powerOnCop0)
    (keeps_reports_call hw.recorded_callsSpare.powerOnCop1)
    fun _ _ _ hd => hd.of_silent rfl (.inr rfl)⟩

theorem Reports.powerOn (h : c.Reports past s) (hgenuine : c.Genuine hw.recorded) (tv : TvStandard)
    (host : Host) :
    ∃ s' : Session, (endState (powerOn hw.recorded tv host c)).videoCalls = past ++ s'.calls := by
  have hnoted : c.noted.Reports past s := by
    rw [noted_eq]
    exact h.of_silent rfl (.inr rfl)
  obtain ⟨s', hreset⟩ := hnoted.reset hgenuine.noted tv
  have hboot : (endState (bootUp hw.recorded tv c.noted)).Reports past s' :=
    endState_bootUp (I := fun d => d.Reports past s') hreset
      (fun _ hd => hd.of_silent rfl (.inr rfl)) (keeps_reports_call hw.init_recorded_spares)
  refine ⟨s', ?_⟩
  rw [powerOn_eq_bootUp]
  cases hr : bootUp hw.recorded tv c.noted with
  | error e d =>
    rw [hr] at hboot
    rw [bind_of_error hr]
    exact hboot.calls
  | ok _ d =>
    rw [hr] at hboot
    rw [bind_of_ok hr, spawnTasks_eq]
    exact (view_spawned hw.recorded_callsSpare (idle_of_bootUp hr) host).trans hboot.calls

def startsSession (hw : Hardware σ ι) (c : Console σ ι) (command : Command) : Bool :=
  command.sessionAfter false (command.perform hw c).1

theorem reports_of_startsSession {command : Command}
    (h : startsSession hw.recorded c command = true) :
    (command.perform hw.recorded c).2.Reports (command.perform hw.recorded c).2.videoCalls
      ⟨0, 0⟩ := by
  refine ⟨(List.append_nil _).symm, fun task htask => ?_⟩
  cases command with
  | powerOn tv host =>
    have hspec := powerOn_spec hw.recorded c tv host
    simp only [startsSession, Command.perform] at h htask
    generalize Console.powerOn hw.recorded tv host c = r at hspec h htask
    cases hspec with
    | started =>
      cases htask
      exact .ready
    | faulted | refused => cases h
  | reset | shutdown | drop | setPowered | turn | pass | plan => cases h

theorem scanlineTask_of_powerOn {hw : Hardware σ ι} {c : Console σ ι} {tv : TvStandard}
    {host : Host} (h : startsSession hw c (.powerOn tv host) = false) :
    (endState (powerOn hw tv host c)).scanlineTask = none := by
  have hspec := powerOn_spec hw c tv host
  simp only [startsSession, Command.perform] at h
  generalize powerOn hw tv host c = r at hspec h
  cases hspec with
  | faulted idle | refused idle => exact idle.2
  | started => cases h

theorem Reports.videoCalls_perform (h : c.Reports past s) (hgenuine : c.Genuine hw.recorded)
    (command : Command) :
    ∃ s' : Session, (command.perform hw.recorded c).2.videoCalls = past ++ s'.calls ∧
      (startsSession hw.recorded c command = false →
        (command.perform hw.recorded c).2.Reports past s') := by
  have hkept {d : Console (Recorded σ ι) ι} {s' : Session} (hd : d.Reports past s') :
      ∃ s' : Session, d.videoCalls = past ++ s'.calls ∧
        (startsSession hw.recorded c command = false → d.Reports past s') :=
    ⟨s', hd.calls, fun _ => hd⟩
  cases command with
  | reset tv =>
    rw [Command.perform_reset]
    obtain ⟨s', hd⟩ := h.reset hgenuine tv
    exact hkept hd
  | powerOn tv host =>
    rw [Command.perform_powerOn]
    obtain ⟨s', hcalls⟩ := h.powerOn hgenuine tv host
    refine ⟨s', hcalls, fun hnone => ⟨hcalls, fun task htask => ?_⟩⟩
    cases (scanlineTask_of_powerOn hnone).symm.trans htask
  | shutdown | drop =>
    obtain ⟨s', hd⟩ := h.shutdown hgenuine
    exact hkept hd
  | setPowered | pass | plan => exact hkept (h.of_silent rfl (.inr rfl))
  | turn t =>
    obtain ⟨s', hd⟩ := h.turn hgenuine t
    exact hkept hd

theorem videoCalls_powerOn (hgenuine : c.Genuine hw.recorded)
    (hdark : c.scanlineTask = none ∨ hw.recorded.KeepsOff) (tv : TvStandard) (host : Host) :
    (endState (powerOn hw.recorded tv host c)).videoCalls = c.videoCalls := by
  have hnoted : c.noted.scanlineTask = none ∨ hw.recorded.KeepsOff := by
    rw [noted_eq]
    exact hdark
  have hsaid : c.noted.videoCalls = c.videoCalls := by
    rw [noted_eq]
    rfl
  have hboot := view_endState_bootUp hw.recorded_callsSpare hw.init_recorded_spares hgenuine.noted
    hnoted tv
  rw [powerOn_eq_bootUp]
  cases hr : bootUp hw.recorded tv c.noted with
  | error e d =>
    rw [hr] at hboot
    rw [bind_of_error hr]
    exact hboot.trans hsaid
  | ok _ d =>
    rw [hr] at hboot
    rw [bind_of_ok hr, spawnTasks_eq]
    exact (view_spawned hw.recorded_callsSpare (idle_of_bootUp hr) host).trans (hboot.trans hsaid)

theorem videoCalls_of_startsSession (hgenuine : c.Genuine hw.recorded)
    (hoffs : hw.recorded.KeepsOff) {command : Command}
    (h : startsSession hw.recorded c command = true) :
    (command.perform hw.recorded c).2.videoCalls = c.videoCalls := by
  cases command with
  | powerOn tv host =>
    rw [Command.perform_powerOn]
    exact videoCalls_powerOn hgenuine (.inr hoffs) tv host
  | reset | shutdown | drop | setPowered | turn | pass | plan => cases h

theorem silent_perform (hgenuine : c.Genuine hw.recorded) (hnone : c.scanlineTask = none)
    {command : Command} (hcommand : startsSession hw.recorded c command = false) :
    (command.perform hw.recorded c).2.scanlineTask = none ∧
      (command.perform hw.recorded c).2.videoCalls = c.videoCalls := by
  cases command with
  | reset tv =>
    rw [Command.perform_reset]
    exact ⟨(idle_reset hw.recorded c tv).2,
      view_endState_reset hw.recorded_callsSpare hgenuine (.inl hnone) tv⟩
  | powerOn tv host =>
    rw [Command.perform_powerOn]
    exact ⟨scanlineTask_of_powerOn hcommand, videoCalls_powerOn hgenuine (.inl hnone) tv host⟩
  | shutdown | drop =>
    exact ⟨(idle_shutdown hw.recorded c).2,
      view_shutdown hw.recorded_callsSpare hgenuine (.inl hnone)⟩
  | setPowered | pass | plan => exact ⟨hnone, rfl⟩
  | turn t =>
    have hsome := (sameSession_turn hw.recorded c t).scanlines
    rw [hnone] at hsome
    exact ⟨Option.isNone_iff_eq_none.mp (Option.isSome_eq_false_iff.mp hsome),
      view_turn hw.recorded_callsSpare hgenuine (.inl hnone) t⟩

/-! ## A whole history -/

def StartsNone (hw : Hardware σ ι) : Console σ ι → List Command → Prop
  | _, [] => True
  | c, command :: commands =>
    startsSession hw c command = false ∧ StartsNone hw (command.perform hw c).2 commands

theorem Reports.after (h : c.Reports past s) (hgenuine : c.Genuine hw.recorded)
    {commands : List Command} (hnone : c.StartsNone hw.recorded commands) :
    ∃ s', (c.after hw.recorded commands).Reports past s' := by
  induction commands generalizing c s with
  | nil => exact ⟨s, h⟩
  | cons command commands ih =>
    obtain ⟨s', -, h'⟩ := h.videoCalls_perform hgenuine command
    exact ih (h' hnone.1) (hgenuine.perform command) hnone.2

theorem videoCalls_after (hgenuine : c.Genuine hw.recorded) (htask : c.scanlineTask = none)
    {commands : List Command} (hnone : c.StartsNone hw.recorded commands) :
    (c.after hw.recorded commands).videoCalls = c.videoCalls := by
  induction commands generalizing c with
  | nil => rfl
  | cons command commands ih =>
    obtain ⟨hstill, hsilent⟩ := silent_perform hgenuine htask hnone.1
    exact (ih (hgenuine.perform command) hstill hnone.2).trans hsilent

end Console

open ScanlineTimer in
/-- The tick that follows `k` completed ones reports line `k % 525`, on a timer, on its copy, and in
every session of a console. -/
theorem scanlines_in_order (hw : Hardware σ ι) :
    (∀ period uses, ∀ x ∈ useAll hw.recorded [.new period] uses,
      (x.line : Nat) = x.completed % 525 ∧
      Nat.repeat countOn x.completed 0 = UInt32.ofNat x.line ∧
      ∀ rig : Rig (Recorded σ ι), TickFollows hw x.completed (x.on rig) ∧
        ∀ budget, RunFollows hw x.completed budget (x.on rig)) ∧
    ∀ hardware settings before,
      let console : Console (Recorded σ ι) ι := .ofHardware ⟨hardware, []⟩ settings
      let c := console.after hw.recorded before
      (console.StartsNone hw.recorded before → c.videoCalls = []) ∧
      ∀ command later, c.startsSession hw.recorded command = true →
        let d := (command.perform hw.recorded c).2
        (hw.KeepsOff → d.videoCalls = c.videoCalls) ∧
        (d.StartsNone hw.recorded later →
          let e := d.after hw.recorded later
          ∃ s, e.Reports d.videoCalls s ∧ e.ReportsNext hw s ∧
            ∀ next : Command, ∃ s' : Session,
              (next.perform hw.recorded e).2.videoCalls = d.videoCalls ++ s'.calls) := by
  refine ⟨fun period uses x hx => ?_, fun hardware settings before => ?_⟩
  · have hnew : ∀ y ∈ [Tallied.new period], y.InOrder period := by
      intro y hy
      rw [List.mem_singleton.mp hy]
      exact ⟨rfl, rfl⟩
    obtain ⟨hline, -⟩ := inOrder_useAll hnew uses x hx
    refine ⟨congrArg Fin.val hline, hline ▸ countOn_repeat _, fun rig => ⟨?_, fun budget => ?_⟩⟩
    · exact tickFollows hw hline
    · exact runFollows hw budget hline
  · intro console c
    have hidle : console.Idle := ⟨rfl, rfl⟩
    have hgenuine : c.Genuine hw.recorded := (hidle.genuine _).after before
    refine ⟨fun hnone => Console.videoCalls_after (hidle.genuine _) rfl hnone, ?_⟩
    intro command later hstart d
    refine ⟨fun hoffs => ?_, fun hnone => ?_⟩
    · exact Console.videoCalls_of_startsSession hgenuine hoffs.recorded hstart
    · intro e
      have hstarted : d.Reports d.videoCalls ⟨0, 0⟩ := Console.reports_of_startsSession hstart
      have hd : d.Genuine hw.recorded := hgenuine.perform command
      obtain ⟨s, hs⟩ := hstarted.after hd hnone
      refine ⟨s, hs, hs.reportsNext, fun next => ?_⟩
      obtain ⟨s', hcalls, -⟩ := hs.videoCalls_perform (hd.after later) next
      exact ⟨s', hcalls⟩

def darkBoard : Hardware TestBoard TestBoard.Instruction :=
  { TestBoard.hardware with
    pollScanline := fun _ => do
      if !(← get).powered then throw (.hardware "no signal")
      return none }

theorem powerOn_darkBoard (c : Console (Recorded TestBoard TestBoard.Instruction) _) :
    ∃ d, Console.powerOn darkBoard.recorded .ntsc {} c = .ok (.ok ()) d ∧ d.powered = true ∧
      ∃ period, d.scanlineTask = some (.ready (ScanlineTimer.firstLine, period)) := by
  have hinit : darkBoard.recorded.InitSparesMachine := fun b => ⟨_, rfl, fun _ => rfl⟩
  have hcop0 : darkBoard.recorded.powerOnCop0.Writes [] := fun b => ⟨_, b.powered, rfl⟩
  have hcop1 : darkBoard.recorded.powerOnCop1.Writes [] := fun b => ⟨_, b.powered, rfl⟩
  obtain ⟨r, hreset, -⟩ := Console.reset_writes .ntsc c hcop0 hcop1
  obtain ⟨e, hboot, hprepared⟩ := Console.exists_prepared hinit hreset
  refine ⟨e.startProcessor.startScanlines,
    (Console.powerOn_ok_iff darkBoard.recorded .ntsc {} c).mpr ⟨e, hboot, rfl, rfl⟩, ?_, _, rfl⟩
  change e.machine.powered = true
  rw [hprepared.machine]
  rfl

theorem scanlineTurn_darkBoard {c : Console (Recorded TestBoard TestBoard.Instruction) _}
    {line : Fin scanlines} {period : Duration} (ready : c.scanlineTask = some (.ready (line, period)))
    (on : c.powered = true) :
    let d := c.turn darkBoard.recorded .scanlines
    d.powered = true ∧ d.scanlineTask = some (.ready (ScanlineTimer.nextLine line, period)) ∧
      callsMade darkBoard ⟨c.rig, line, period⟩ = 2 := by
  obtain ⟨⟨hardware, registers, powered, cycles, statistics⟩, settings, p, s, journal, now,
    lastTurns⟩ := c
  cases ready
  cases on
  exact ⟨rfl, rfl, rfl⟩

theorem videoCalls_darkBoard {d : Console (Recorded TestBoard TestBoard.Instruction) _}
    {period : Duration} (ready : d.scanlineTask = some (.ready (ScanlineTimer.firstLine, period)))
    (on : d.powered = true) {s s' : Session}
    (hfirst : (d.after darkBoard.recorded []).ReportsNext darkBoard s)
    (hsecond : (d.after darkBoard.recorded [.turn .scanlines]).ReportsNext darkBoard s') :
    (d.after darkBoard.recorded [.turn .scanlines, .turn .scanlines]).videoCalls = d.videoCalls ++
      [.writeScanline 0, .pollScanline 0, .writeScanline 1, .pollScanline 1] := by
  let e := d.turn darkBoard.recorded .scanlines
  have hfirst : d.ReportsNext darkBoard s := hfirst
  have hsecond : e.ReportsNext darkBoard s' := hsecond
  obtain ⟨on', ready', hmade⟩ := scanlineTurn_darkBoard ready on
  obtain ⟨-, -, hmade'⟩ := scanlineTurn_darkBoard ready' on'
  obtain ⟨-, hcalls⟩ := hfirst _ _ ready on
  obtain ⟨-, hcalls'⟩ := hsecond _ _ ready' on'
  change (e.turn darkBoard.recorded .scanlines).videoCalls = _
  rw [hcalls', hcalls, hmade, hmade', List.append_assoc]
  rfl

open ScanlineTimer in
/-- The poll of a line faults while the power is off, so the timer has completed one of its two
ticks, and its copy one more. -/
theorem scanlines_of_timer_and_copy :
    let hw := darkBoard
    let rig (powered : Bool) : Rig (Recorded TestBoard TestBoard.Instruction) :=
      ⟨⟨{}, []⟩, { powered }⟩
    let uses := [.tick 0 (rig true), .tick 0 (rig false), .copy 0, .tick 1 (rig true)]
    let period := Duration.ofMilliseconds 10
    let timer : Tallied := ⟨lineAfter 1, period, 1⟩
    let copy : Tallied := ⟨lineAfter 2, period, 2⟩
    let console : Console (Recorded TestBoard TestBoard.Instruction) TestBoard.Instruction :=
      .ofHardware ⟨{}, []⟩ {}
    let c := console.after hw.recorded [.powerOn .ntsc {}, .turn .scanlines, .shutdown]
    let d := ((Command.powerOn .ntsc {}).perform hw.recorded c).2
    useAll hw.recorded [.new period] uses = [timer, copy] ∧
    completes (tick hw.recorded (timer.on (rig false))) = false ∧
    (endState (tick hw.recorded (timer.on (rig false)))).hardware.calls =
      [.writeScanline 1, .pollScanline 1] ∧
    RunFollows hw 2 1000 (copy.on (rig true)) ∧
    (d.after hw.recorded [.turn .scanlines, .turn .scanlines]).videoCalls = d.videoCalls ++
      [.writeScanline 0, .pollScanline 0, .writeScanline 1, .pollScanline 1] := by
  intro hw rig uses period timer copy console c d
  have huses : useAll hw.recorded [.new period] uses = [timer, copy] := rfl
  have htimer : timer ∈ useAll hw.recorded [.new period] uses := by simp [huses]
  have hcopy : copy ∈ useAll hw.recorded [.new period] uses := by simp [huses]
  obtain ⟨-, -, htick⟩ := (scanlines_in_order hw).1 period uses timer htimer
  obtain ⟨-, -, hrun⟩ := (scanlines_in_order hw).1 period uses copy hcopy
  refine ⟨huses, rfl, (htick (rig false)).1.calls, (hrun (rig true)).2 1000, ?_⟩
  obtain ⟨-, hsessions⟩ := (scanlines_in_order hw).2 {} {}
    [.powerOn .ntsc {}, .turn .scanlines, .shutdown]
  obtain ⟨d', hon, hpower, _, hready⟩ := powerOn_darkBoard c
  have hd : d' = d := by simp only [d, hw, Command.perform, hon]
  rw [hd] at hpower hready
  have hstart : c.startsSession hw.recorded (.powerOn .ntsc {}) = true := by
    simp only [hw, Console.startsSession, Command.perform, hon]
    rfl
  obtain ⟨s, -, hfirst, -⟩ := (hsessions (.powerOn .ntsc {}) [] hstart).2 trivial
  obtain ⟨s', -, hsecond, -⟩ :=
    (hsessions (.powerOn .ntsc {}) [.turn .scanlines] hstart).2 ⟨rfl, trivial⟩
  exact videoCalls_darkBoard hready hpower hfirst hsecond

end ConsoleCore
