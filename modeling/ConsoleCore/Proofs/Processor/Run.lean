import ConsoleCore.TestBoard
import ConsoleCore.Proofs.Processor.Recorded

/-!
# A run is a number of steps

A run looks at the power between instructions only. So it is as many single steps as it takes until
one of them leaves the power off, or fewer if one of them faults.
-/

namespace ConsoleCore.Processor

variable {σ τ ι : Type} {hw : Hardware σ ι} {p q r : Processor σ} {n : Nat}

/-! ## Steps with the power on -/

/-- All of `n` steps are completed, and there is power before each of them. -/
structure PoweredSteps (hw : Hardware σ ι) (n : Nat) (p q : Processor σ) : Prop where
  completed : steps hw n p = .ok () q
  powered : ∀ k < n, (endState (steps hw k p)).machine.powered = true

theorem PoweredSteps.first (h : PoweredSteps hw (n + 1) p q) :
    p.machine.powered = true ∧ ∃ r, step hw p = .ok () r ∧ PoweredSteps hw n r q := by
  obtain ⟨_, r, hstep, hsteps⟩ := bind_ok_iff.mp h.completed
  refine ⟨h.powered 0 n.succ_pos, r, hstep, hsteps, fun k hk => ?_⟩
  have hpowered := h.powered (k + 1) (Nat.succ_lt_succ hk)
  have hnext : steps hw (k + 1) p = steps hw k r := bind_of_ok hstep
  rwa [hnext] at hpowered

theorem PoweredSteps.upTo (h : PoweredSteps hw n p q) {k : Nat} (hk : k ≤ n) :
    ∃ r, PoweredSteps hw k p r ∧ (k < n → r.machine.powered = true) := by
  obtain ⟨r, hr⟩ := exists_steps_of_le hk h.completed
  refine ⟨r, ⟨hr, fun j hj => h.powered j (Nat.lt_of_lt_of_le hj hk)⟩, fun hlt => ?_⟩
  have hpowered := h.powered k hlt
  rwa [hr] at hpowered

theorem PoweredSteps.seen {view : σ → τ} {telling : Statistics → Statistics} {hw' : Hardware τ ι}
    (hhw : hw.SeenThrough view hw')
    (htelling : ∀ s total, telling (s.retire total) = (telling s).retire total)
    (h : PoweredSteps hw n p q) :
    PoweredSteps hw' n (p.seen view telling) (q.seen view telling) where
  completed := by
    rw [seenThrough_steps hhw htelling n p, h.completed]
    rfl
  powered k hk := by
    rw [seenThrough_steps hhw htelling k p, endState_viewed]
    exact h.powered k hk

theorem PoweredSteps.recorded (h : PoweredSteps hw n p q) :
    PoweredSteps hw.recorded n (p.recorded []) (q.recorded (callsOf (steps hw.recorded n) p)) where
  completed := by
    rw [(records_steps hw n).apply, h.completed]
    rfl
  powered k hk := by
    rw [(records_steps hw k).apply, endState_viewed]
    exact h.powered k hk

/-! ## The loop -/

theorem stepWhilePowered_zero (p : Processor σ) :
    stepWhilePowered hw 0 p = .ok (!p.machine.powered) p := rfl

theorem stepWhilePowered_succ (p : Processor σ) (budget : Nat) :
    stepWhilePowered hw (budget + 1) p =
      if p.machine.powered then (do
        step hw
        stepWhilePowered hw budget) p
      else .ok true p := by
  rw [stepWhilePowered, bind_of_ok (get_apply p)]
  split <;> rfl

theorem stepWhilePowered_of_off (h : p.machine.powered = false) (budget : Nat) :
    stepWhilePowered hw budget p = .ok true p := by
  cases budget with
  | zero => rw [stepWhilePowered_zero, h, Bool.not_false]
  | succ budget => rw [stepWhilePowered_succ, h, if_neg Bool.false_ne_true]

theorem stepWhilePowered_add (h : PoweredSteps hw n p q) (budget : Nat) :
    stepWhilePowered hw (n + budget) p = stepWhilePowered hw budget q := by
  induction n generalizing p with
  | zero =>
    cases h.completed
    rw [Nat.zero_add]
  | succ n ih =>
    obtain ⟨hpowered, r, hstep, hrest⟩ := h.first
    rw [Nat.succ_add, stepWhilePowered_succ, if_pos hpowered, bind_of_ok hstep, ih hrest]

/-! ## A run -/

theorem run_of_ok {q : Processor σ} {off : Bool} {budget startedAt endedAt : Nat}
    (h : stepWhilePowered hw budget (p.onStatistics (·.start startedAt)) = .ok off q) :
    run hw budget startedAt endedAt p =
      if off then .ok (some (.processorStopped q.machine.statistics.instructions))
        (q.onStatistics (·.stop endedAt))
      else .ok none q := by
  unfold run
  rw [bind_of_ok (modify_apply _ _), bind_of_ok h]
  cases off <;> rfl

theorem run_of_error {e : Fault} {q : Processor σ} {budget startedAt : Nat} (endedAt : Nat)
    (h : stepWhilePowered hw budget (p.onStatistics (·.start startedAt)) = .error e q) :
    run hw budget startedAt endedAt p = .error e q := by
  unfold run
  rw [bind_of_ok (modify_apply _ _), bind_of_error h]

theorem PoweredSteps.started (h : PoweredSteps hw n p q) (startedAt : Nat) :
    PoweredSteps hw n (p.onStatistics (·.start startedAt))
      (q.onStatistics (·.start startedAt)) := by
  have hseen : PoweredSteps hw n (p.seen id (·.start startedAt)) (q.seen id (·.start startedAt)) :=
    h.seen (.refl hw) fun _ _ => rfl
  exact hseen

theorem PoweredSteps.run_of_off (h : PoweredSteps hw n p q) (hoff : q.machine.powered = false)
    {budget : Nat} (hbudget : n ≤ budget) (startedAt endedAt : Nat) :
    run hw budget startedAt endedAt p =
      .ok (some (.processorStopped q.machine.statistics.instructions))
        (q.onStatistics fun s => (s.start startedAt).stop endedAt) := by
  obtain ⟨spare, rfl⟩ := Nat.exists_eq_add_of_le hbudget
  have hloop := stepWhilePowered_add (h.started startedAt) spare
  have hpowered : (q.onStatistics (·.start startedAt)).machine.powered = false := hoff
  rw [stepWhilePowered_of_off hpowered] at hloop
  exact run_of_ok hloop

theorem PoweredSteps.run_of_on (h : PoweredSteps hw n p q) (hon : q.machine.powered = true)
    (startedAt endedAt : Nat) :
    run hw n startedAt endedAt p = .ok none (q.onStatistics (·.start startedAt)) := by
  have hloop := stepWhilePowered_add (h.started startedAt) 0
  have hpowered : (q.onStatistics (·.start startedAt)).machine.powered = true := hon
  rw [stepWhilePowered_zero, hpowered] at hloop
  exact run_of_ok hloop

theorem PoweredSteps.run_of_fault (h : PoweredSteps hw n p r) (hon : r.machine.powered = true)
    {e : Fault} (hfault : step hw r = .error e q) {budget : Nat} (hbudget : n < budget)
    (startedAt endedAt : Nat) :
    run hw budget startedAt endedAt p = .error e (q.onStatistics (·.start startedAt)) := by
  obtain ⟨spare, rfl⟩ := Nat.exists_eq_add_of_lt hbudget
  have hloop := stepWhilePowered_add (h.started startedAt) (spare + 1)
  have hpowered : (r.onStatistics (·.start startedAt)).machine.powered = true := hon
  have hstep : step hw (r.onStatistics (·.start startedAt)) =
      .error e (q.onStatistics (·.start startedAt)) := by
    have hview : step hw (r.seen id (·.start startedAt)) =
        viewed (Processor.seen id (·.start startedAt)) (step hw r) :=
      seenThrough_step (.refl hw) (fun _ _ => rfl) r
    rw [hfault] at hview
    exact hview
  rw [stepWhilePowered_succ, if_pos hpowered, bind_of_error hstep] at hloop
  exact run_of_error endedAt hloop

/-! ## The calls of a run -/

theorem callsOf_run (h : PoweredSteps hw n p q) (hoff : q.machine.powered = false) {budget : Nat}
    (hbudget : n ≤ budget) (startedAt endedAt : Nat) :
    callsOf (run hw.recorded budget startedAt endedAt) p = callsOf (steps hw.recorded n) p := by
  have hrun := h.recorded.run_of_off hoff hbudget startedAt endedAt
  unfold callsOf at hrun ⊢
  rw [hrun]
  rfl

theorem callsOf_run_of_fault (h : PoweredSteps hw n p r) (hon : r.machine.powered = true)
    {e : Fault} (hfault : step hw r = .error e q) {budget : Nat} (hbudget : n < budget)
    (startedAt endedAt : Nat) :
    callsOf (run hw.recorded budget startedAt endedAt) p =
      callsOf (steps hw.recorded (n + 1)) p := by
  have hstep := (records_step hw).apply (callsOf (steps hw.recorded n) p) r
  rw [hfault] at hstep
  have hrun := h.recorded.run_of_fault hon hstep hbudget startedAt endedAt
  rw [callsOf_steps_succ hw h.completed]
  unfold callsOf at hrun ⊢
  rw [hrun]
  rfl

/-! ## The step that ends a run -/

/-- A step that finds the power on and leaves it off. The instruction is retired all the same, and
nothing is asked of the hardware after its cost. -/
structure PowersOff (hw : Hardware σ ι) (p q : Processor σ) : Prop where
  powered : p.machine.powered = true
  retired : ∃ s : Stages hw p, s.executed.machine.powered = false ∧
    retire hw s.inFlight s.executed = .ok () q ∧ callsOf (step hw.recorded) p = s.calls ∧
    q.registers.cop0 Cop0.random = nextRandom (s.executed.registers.cop0 Cop0.random)
      (s.decoded.registers.cop0 Cop0.wired) (s.executed.registers.cop0 Cop0.wired)
  count : q.registers.cop0 Cop0.count = q.accumulator >>> 1
  statistics : q.machine.statistics = p.machine.statistics.retire q.machine.cycles

theorem powersOff_of_step (hon : p.machine.powered = true) (hstep : step hw p = .ok () q)
    (hoff : q.machine.powered = false) : PowersOff hw p q := by
  obtain ⟨s, hretire⟩ := exists_stages hstep
  have hrandom := random_of_retire hretire
  obtain ⟨hroom, rfl⟩ := retire_ok_iff.mp hretire
  exact ⟨hon, ⟨s, hoff, hretire, s.callsOf_step, hrandom⟩, cop0_count_updateTimers _ _ _,
    congrArg (Statistics.retire · _) s.sameCounts.statistics⟩

theorem PoweredSteps.last (h : PoweredSteps hw (n + 1) p q) (hoff : q.machine.powered = false) :
    ∃ r, PoweredSteps hw n p r ∧ PowersOff hw r q ∧
      callsOf (steps hw.recorded (n + 1)) p =
        callsOf (steps hw.recorded n) p ++ callsOf (step hw.recorded) r := by
  obtain ⟨r, hr, hon⟩ := h.upTo n.le_succ
  have hstep : step hw r = .ok () q := by
    have hcompleted := h.completed
    rwa [steps_succ, bind_of_ok hr.completed] at hcompleted
  exact ⟨r, hr, powersOff_of_step (hon n.lt_succ_self) hstep hoff,
    callsOf_steps_succ hw hr.completed⟩

/-! ## The run as a whole -/

/-- A run takes steps until one of them leaves the power off, with any budget that is large enough.
-/
theorem run_is_steps_until_power_off (hw : Hardware σ ι) (p : Processor σ)
    (startedAt endedAt : Nat) :
    (∀ n q, PoweredSteps hw n p q → q.machine.powered = false →
      (∀ budget, n ≤ budget →
        run hw budget startedAt endedAt p =
          .ok (some (.processorStopped q.machine.statistics.instructions))
            (q.onStatistics fun s => (s.start startedAt).stop endedAt) ∧
        callsOf (run hw.recorded budget startedAt endedAt) p = callsOf (steps hw.recorded n) p) ∧
      (∀ budget < n, ∃ r, steps hw budget p = .ok () r ∧
        run hw budget startedAt endedAt p = .ok none (r.onStatistics (·.start startedAt))) ∧
      ∀ m, n = m + 1 → ∃ r, steps hw m p = .ok () r ∧ PowersOff hw r q ∧
        callsOf (steps hw.recorded n) p =
          callsOf (steps hw.recorded m) p ++ callsOf (step hw.recorded) r) ∧
    ∀ n r e q, PoweredSteps hw n p r → r.machine.powered = true → step hw r = .error e q →
      steps hw (n + 1) p = .error e q ∧
      ∀ budget, n < budget →
        run hw budget startedAt endedAt p = .error e (q.onStatistics (·.start startedAt)) ∧
        callsOf (run hw.recorded budget startedAt endedAt) p =
          callsOf (steps hw.recorded (n + 1)) p := by
  refine ⟨fun n q h hoff => ⟨fun budget hbudget => ?_, fun budget hbudget => ?_, ?_⟩,
    fun n r e q h hon hfault => ⟨?_, fun budget hbudget => ?_⟩⟩
  · exact ⟨h.run_of_off hoff hbudget startedAt endedAt,
      callsOf_run h hoff hbudget startedAt endedAt⟩
  · obtain ⟨r, hr, hon⟩ := h.upTo (Nat.le_of_lt hbudget)
    exact ⟨r, hr.completed, hr.run_of_on (hon hbudget) startedAt endedAt⟩
  · rintro m rfl
    obtain ⟨r, hr, hlast, hcalls⟩ := h.last hoff
    exact ⟨r, hr.completed, hlast, hcalls⟩
  · rw [steps_succ, bind_of_ok h.completed]
    exact hfault
  · exact ⟨h.run_of_fault hon hfault hbudget startedAt endedAt,
      callsOf_run_of_fault h hon hfault hbudget startedAt endedAt⟩

/-- Every opcode is its own address here. The third instruction takes the power away, and the one at
`0x18` faults. -/
theorem run_of_three_instructions :
    let hw : Hardware TestBoard TestBoard.Instruction := { TestBoard.hardware with
      fetch := fun address => pure address
      execute := fun i => do
        if i.opcode = 0x18 then throw (.hardware "bus error")
        modify fun s => { s with
          registers := i.apply s.registers, powered := s.powered && i.opcode != 8 }
        return none }
    let start (pc : UInt64) : Processor TestBoard :=
      { hardware := {}, machine := { registers := Registers.atReset.setPc pc, powered := true } }
    (∃ q, PoweredSteps hw 3 (start 0) q ∧ q.machine.powered = false ∧
      run hw 1000 10 70 (start 0) = .ok (some (.processorStopped 3))
        (q.onStatistics fun s => (s.start 10).stop 70)) ∧
    ∃ r q, PoweredSteps hw 2 (start 0x10) r ∧ r.machine.powered = true ∧
      step hw r = .error (.hardware "bus error") q ∧
      run hw 1000 10 70 (start 0x10) =
        .error (.hardware "bus error") (q.onStatistics (·.start 10)) := by
  intro hw start
  obtain ⟨hthree, hpowered, hoff, hinstructions⟩ :
      completes (steps hw 3 (start 0)) = true ∧
        (∀ k < 3, (endState (steps hw k (start 0))).machine.powered = true) ∧
        (endState (steps hw 3 (start 0))).machine.powered = false ∧
        (endState (steps hw 3 (start 0))).machine.statistics.instructions = 3 := by
    decide +kernel
  obtain ⟨htwo, hpowered', hon, hfault⟩ :
      completes (steps hw 2 (start 0x10)) = true ∧
        (∀ k < 2, (endState (steps hw k (start 0x10))).machine.powered = true) ∧
        (endState (steps hw 2 (start 0x10))).machine.powered = true ∧
        fault? (step hw (endState (steps hw 2 (start 0x10)))) = some (.hardware "bus error") := by
    decide +kernel
  have hstops : PoweredSteps hw 3 (start 0) _ := ⟨eq_ok_of_completes hthree, hpowered⟩
  have hfaults : PoweredSteps hw 2 (start 0x10) _ := ⟨eq_ok_of_completes htwo, hpowered'⟩
  obtain ⟨hrun, -⟩ :=
    ((run_is_steps_until_power_off hw (start 0) 10 70).1 3 _ hstops hoff).1 1000 (by decide)
  rw [hinstructions] at hrun
  obtain ⟨hrun', -⟩ := ((run_is_steps_until_power_off hw (start 0x10) 10 70).2 2 _ _ _ hfaults hon
    (eq_error_of_fault? hfault)).2 1000 (by decide)
  exact ⟨⟨_, hstops, hoff, hrun⟩, _, _, hfaults, hon, eq_error_of_fault? hfault, hrun'⟩

end ConsoleCore.Processor
