import ConsoleCore.Proofs.Console.Reset

/-!
# The journal is write-only

No operation looks at the journal or takes an entry back. So it does not matter to an operation
what was said before it.
-/

namespace ConsoleCore.Console

variable {σ ι α β : Type}

/-- The same console, if entries had been in its journal before. -/
def prefaced (es : List JournalEntry) (c : Console σ ι) : Console σ ι :=
  { c with journal := es ++ c.journal }

def prefacedResult (es : List JournalEntry) :
    EStateM.Result Fault (Console σ ι) α → EStateM.Result Fault (Console σ ι) α
  | .ok a c => .ok a (c.prefaced es)
  | .error e c => .error e (c.prefaced es)

/-- The action does not look at the journal, and only adds to it. -/
def OnlyAppends (x : Action σ ι α) : Prop := ∀ es c, x (c.prefaced es) = prefacedResult es (x c)

/-! ## Combined actions -/

theorem OnlyAppends.modify {f : Console σ ι → Console σ ι}
    (h : ∀ es c, f (c.prefaced es) = (f c).prefaced es) :
    OnlyAppends (modify f : Action σ ι PUnit) := by
  intro es c
  rw [modify_apply, modify_apply, h]
  rfl

theorem OnlyAppends.pure (a : α) : OnlyAppends (Pure.pure a : Action σ ι α) := fun _ _ => rfl

theorem OnlyAppends.bind {x : Action σ ι α} {f : α → Action σ ι β} (hx : OnlyAppends x)
    (hf : ∀ a, OnlyAppends (f a)) : OnlyAppends (x >>= f) := by
  intro es c
  have hc := hx es c
  cases h : x c with
  | ok a d =>
    rw [h] at hc
    rw [bind_of_ok h, bind_of_ok hc]
    exact hf a es d
  | error e d =>
    rw [h] at hc
    rw [bind_of_error h, bind_of_error hc]
    rfl

theorem onlyAppends_call (h : Hook σ α) : OnlyAppends (call h : Action σ ι α) := by
  intro es c
  simp only [call, prefaced]
  cases c.rig.call h <;> rfl

/-! ## Turns -/

variable (hw : Hardware σ ι) (es : List JournalEntry) (c : Console σ ι)

theorem say_prefaced (s : Speaker) (m : Message) :
    (c.prefaced es).say s m = (c.say s m).prefaced es := by
  simp only [say, prefaced, List.append_assoc]

theorem sayAll_prefaced (s : Speaker) (ms : List Message) :
    (c.prefaced es).sayAll s ms = (c.sayAll s ms).prefaced es := by
  simp only [sayAll, prefaced, List.append_assoc]

theorem runProcessor_prefaced
    (act : Processor.Action σ (Option (Processor.InFlight ι × Hold σ))) (accumulator : UInt64) :
    (c.prefaced es).runProcessor act accumulator =
      (c.runProcessor act accumulator).prefaced es := by
  rw [runProcessor_eq, runProcessor_eq]
  rfl

theorem runScanlines_prefaced (act : ScanlineTimer.Action σ (Option (Hold σ)))
    (line : Fin scanlines) (period : Duration) :
    (c.prefaced es).runScanlines act line period =
      (c.runScanlines act line period).prefaced es := by
  rw [runScanlines_eq, runScanlines_eq]
  rfl

theorem processorTurn_prefaced :
    (c.prefaced es).processorTurn hw = (c.processorTurn hw).prefaced es := by
  have hpowered : (c.prefaced es).powered = c.powered := rfl
  have htask : (c.prefaced es).processorTask = c.processorTask := rfl
  have hother : (c.prefaced es).scanlineTask = c.scanlineTask := rfl
  have hend : (c.prefaced es).endProcessor = c.endProcessor.prefaced es := by
    simp only [endProcessor, onStatistics, onMachine, say, prefaced, List.append_assoc]
    rfl
  unfold processorTurn
  rw [htask, hpowered, hother]
  split
  · split
    · exact runProcessor_prefaced es c _ _
    · exact hend
  · split
    · exact runProcessor_prefaced es c _ _
    · rfl
  · rfl

theorem scanlineTurn_prefaced :
    (c.prefaced es).scanlineTurn hw = (c.scanlineTurn hw).prefaced es := by
  have hpowered : (c.prefaced es).powered = c.powered := rfl
  have htask : (c.prefaced es).scanlineTask = c.scanlineTask := rfl
  have hother : (c.prefaced es).processorTask = c.processorTask := rfl
  have hend (line : Fin scanlines) :
      (c.prefaced es).endScanlines line = (c.endScanlines line).prefaced es := by
    simp only [endScanlines, say, prefaced, List.append_assoc]
  unfold scanlineTurn
  rw [htask, hpowered, hother]
  split
  · split
    · exact runScanlines_prefaced es c _ _ _
    · exact hend _
  · split
    · exact runScanlines_prefaced es c _ _ _
    · rfl
  · rfl

theorem turn_prefaced (t : Turn) : (c.prefaced es).turn hw t = (c.turn hw t).prefaced es := by
  cases t with
  | processor => exact processorTurn_prefaced hw es c
  | scanlines => exact scanlineTurn_prefaced hw es c

theorem turns_prefaced (schedule : List Turn) :
    (c.prefaced es).turns hw schedule = (c.turns hw schedule).prefaced es := by
  induction schedule generalizing c with
  | nil => rfl
  | cons t schedule ih =>
    change ((c.prefaced es).turn hw t).turns hw schedule = _
    rw [turn_prefaced, ih]
    rfl

/-! ## Switching off and on -/

theorem shutdown_prefaced : (c.prefaced es).shutdown hw = (c.shutdown hw).prefaced es := by
  have hset : (c.prefaced es).setPowered false = (c.setPowered false).prefaced es := rfl
  have hwind : ((c.setPowered false).prefaced es).windDown hw =
      ((c.setPowered false).windDown hw).prefaced es :=
    turns_prefaced hw es (c.setPowered false) c.joiningTurns
  have hcollect (d : Console σ ι) : (d.prefaced es).collectTasks = d.collectTasks.prefaced es := by
    simp only [collectTasks, sayAll, prefaced, List.append_assoc]
  have hpowered : (c.prefaced es).powered = c.powered := rfl
  dsimp only [shutdown]
  rw [hpowered, hset, hwind, hcollect]
  split
  · exact say_prefaced es _ _ _
  · rfl

theorem booted_prefaced (tv : TvStandard) :
    (c.prefaced es).booted hw tv = (c.booted hw tv).prefaced es := by
  have hprint : (c.prefaced es).print hw = c.print hw := rfl
  dsimp only [booted]
  rw [hprint]
  generalize c.print hw = print
  exact sayAll_prefaced es { c with rig := _ } .caller _

theorem onlyAppends_callCoprocessors (tv : TvStandard) (print : Fingerprint) :
    OnlyAppends (callCoprocessors hw tv print) :=
  (onlyAppends_call _).bind fun _ => (onlyAppends_call _).bind fun _ =>
    (OnlyAppends.modify fun es c => say_prefaced es c _ _).bind fun _ => .pure _

theorem onlyAppends_reset (tv : TvStandard) : OnlyAppends (reset hw tv) := by
  intro es c
  rw [reset_eq, reset_eq, shutdown_prefaced, booted_prefaced]
  exact onlyAppends_callCoprocessors hw tv _ es _

theorem onlyAppends_spawnTasks (host : Host) : OnlyAppends (spawnTasks hw host) := by
  have hscanlines : OnlyAppends (spawnScanlines hw host) := by
    unfold spawnScanlines
    split
    · exact (OnlyAppends.modify (shutdown_prefaced hw)).bind fun _ => .pure _
    · exact (OnlyAppends.modify fun _ _ => rfl).bind fun _ => .pure _
  unfold spawnTasks
  split
  · exact (OnlyAppends.modify fun _ _ => rfl).bind fun _ => .pure _
  · exact (OnlyAppends.modify fun _ _ => rfl).bind fun _ =>
      (OnlyAppends.modify fun es c => turns_prefaced hw es c _).bind fun _ => hscanlines

end ConsoleCore.Console
