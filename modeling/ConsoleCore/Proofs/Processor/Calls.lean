import ConsoleCore.Processor
import ConsoleCore.Proofs.Action
import ConsoleCore.Proofs.Registers

/-!
# Calls of a processor

What a caller does with a processor, and what one instruction can do to it: the hooks of the
hardware only reach the registers, everything else changes where the accumulator starts over and
in the bookkeeping at the end.
-/

namespace ConsoleCore

variable {σ ι α β : Type}

/-! ## Registers that the hardware leaves alone -/

def Hook.Leaves (view : Registers → β) (h : Hook σ α) : Prop :=
  ∀ b, view (endState (h b)).registers = view b.registers

/-- No hook that an instruction calls changes `view` of the registers. -/
structure Hardware.Leaves (hw : Hardware σ ι) (view : Registers → β) : Prop where
  fetch : ∀ address, (hw.fetch address).Leaves view
  poll : ∀ delaySlot, (hw.poll delaySlot).Leaves view
  decode : ∀ opcode flags, (hw.decode opcode flags).Leaves view
  execute : ∀ i, (Hook.withoutWaiting (hw.execute i)).Leaves view

/-! ## A call of a hook -/

namespace Rig

def bus (r : Rig σ) : Bus σ := ⟨r.hardware, r.machine.registers, r.machine.powered⟩

def afterCall (r : Rig σ) (b : Bus σ) : Rig σ :=
  ⟨b.hardware, ⟨b.registers, b.powered, r.machine.cycles,
    r.machine.statistics⟩⟩

theorem endState_call (h : Hook σ α) (r : Rig σ) :
    endState (r.call h) = r.afterCall (endState (h r.bus)) := by
  obtain ⟨hardware, registers, powered, cycles, statistics⟩ := r
  simp only [call, bus, afterCall]
  cases h ⟨hardware, registers, powered⟩ <;> rfl

theorem call_ok_iff {h : Hook σ α} {r r' : Rig σ} {a : α} :
    r.call h = .ok a r' ↔ ∃ b, h r.bus = .ok a b ∧ r' = r.afterCall b := by
  obtain ⟨hardware, registers, powered, cycles, statistics⟩ := r
  simp only [call, bus, afterCall]
  cases h ⟨hardware, registers, powered⟩ with
  | ok a' b' =>
    constructor
    · rintro ⟨⟩
      exact ⟨b', rfl, rfl⟩
    · rintro ⟨b, ⟨⟩, rfl⟩
      rfl
  | error e b' =>
    constructor
    · rintro ⟨⟩
    · rintro ⟨b, ⟨⟩, -⟩

theorem cycles_call (h : Hook σ α) (r : Rig σ) :
    (endState (r.call h)).machine.cycles = r.machine.cycles := by
  rw [endState_call]
  rfl

theorem statistics_call (h : Hook σ α) (r : Rig σ) :
    (endState (r.call h)).machine.statistics = r.machine.statistics := by
  rw [endState_call]
  rfl

end Rig

namespace Processor

/-! ## What a caller does -/

inductive Call where
  | step
  | interpret (opcode : UInt32) (delaySlot : Bool)
  deriving DecidableEq, Repr

def Call.perform (hw : Hardware σ ι) : Call → Action σ Unit
  | step => Processor.step hw
  | interpret opcode delaySlot => Processor.interpret hw opcode delaySlot

/-- What happens to a processor from one moment to the next. Between two instructions registers
and hardware can change without it. -/
inductive Use (σ : Type) where
  | call (c : Call)
  | registers (op : RegisterOperation)
  | hardware (f : σ → σ)

def afterUse (hw : Hardware σ ι) (p : Processor σ) : Use σ → Processor σ
  | .call c => endState (c.perform hw p)
  | .registers op => p.onRegisters (·.operate op)
  | .hardware f => { p with hardware := f p.hardware }

def after (hw : Hardware σ ι) (p : Processor σ) (us : List (Use σ)) : Processor σ :=
  us.foldl (afterUse hw) p

/-! ## Frames -/

@[simp] theorem registers_onRegisters (f : Registers → Registers) (p : Processor σ) :
    (p.onRegisters f).registers = f p.registers := rfl

def bus (p : Processor σ) : Bus σ := ⟨p.hardware, p.registers, p.machine.powered⟩

theorem toRig_call (h : Hook σ α) (p : Processor σ) :
    (endState (call h p)).toRig = endState (p.toRig.call h) := by
  simp only [call]
  cases p.toRig.call h <;> rfl

theorem registers_call (h : Hook σ α) (p : Processor σ) :
    (endState (call h p)).registers = (endState (h p.bus)).registers := by
  change (endState (call h p)).toRig.machine.registers = _
  rw [toRig_call, Rig.endState_call]
  rfl

theorem accumulator_call (h : Hook σ α) (p : Processor σ) :
    (endState (call h p)).accumulator = p.accumulator := by
  simp only [call]
  cases p.toRig.call h <;> rfl

theorem call_ok_iff {h : Hook σ α} {p q : Processor σ} {a : α} :
    call h p = .ok a q ↔
      ∃ b, h p.toRig.bus = .ok a b ∧ q = ⟨p.toRig.afterCall b, p.accumulator⟩ := by
  obtain ⟨rig, accumulator⟩ := p
  simp only [call]
  cases hrig : rig.call h with
  | ok a' r =>
    obtain ⟨b, hb, rfl⟩ := Rig.call_ok_iff.mp hrig
    rw [hb]
    constructor
    · rintro ⟨⟩
      exact ⟨b, rfl, rfl⟩
    · rintro ⟨b', ⟨⟩, rfl⟩
      rfl
  | error e r =>
    constructor
    · rintro ⟨⟩
    · rintro ⟨b, hb, -⟩
      have hok := Rig.call_ok_iff.mpr ⟨b, hb, rfl⟩
      rw [hrig] at hok
      cases hok

theorem read_startOver {x : Register} (hx : x ≠ .cop0 (Fin.ofNat 32 Cop0.count))
    (p : Processor σ) : p.startOver.registers.read x = p.registers.read x := by
  unfold startOver
  split
  · exact Registers.read_setCop0_of_ne hx _ _
  · rfl

/-! ## An instruction up to its bookkeeping -/

def execute (hw : Hardware σ ι) (opcode : UInt32) (delaySlot : Bool) : Action σ (InFlight ι) := do
  let f ← dispatch hw opcode delaySlot
  call (Hook.withoutWaiting (hw.execute f.instruction))
  return f

def Call.execution (hw : Hardware σ ι) : Call → Action σ (InFlight ι)
  | step => do execute hw (← fetch hw) false
  | interpret opcode delaySlot => execute hw opcode delaySlot

theorem interpret_eq (hw : Hardware σ ι) (opcode : UInt32) (delaySlot : Bool) :
    interpret hw opcode delaySlot = execute hw opcode delaySlot >>= retire hw := by
  simp only [interpret, execute, bind_assoc, pure_bind]

theorem Call.perform_eq (hw : Hardware σ ι) (c : Call) :
    c.perform hw = c.execution hw >>= retire hw := by
  cases c with
  | step => simp only [perform, execution, Processor.step, interpret_eq, bind_assoc]
  | interpret opcode delaySlot => exact interpret_eq hw opcode delaySlot

structure StagesKeep (hw : Hardware σ ι) (I : Processor σ → Prop) : Prop where
  fetch : ∀ address, Keeps I (call (hw.fetch address))
  poll : ∀ delaySlot, Keeps I (call (hw.poll delaySlot))
  clearZero : ∀ p, I p → I (p.onRegisters Registers.clearZero)
  startOver : ∀ p, I p → I p.startOver
  decode : ∀ opcode flags, Keeps I (call (hw.decode opcode flags))
  execute : ∀ i, Keeps I (call (Hook.withoutWaiting (hw.execute i)))

variable {hw : Hardware σ ι} {I : Processor σ → Prop}

theorem StagesKeep.dispatch (h : StagesKeep hw I) (opcode : UInt32) (delaySlot : Bool) :
    Keeps I (Processor.dispatch hw opcode delaySlot) :=
  (h.poll _).bind fun _ => (Keeps.modify h.clearZero).bind fun _ =>
    (Keeps.modify h.startOver).bind fun _ => (h.decode _ _).bind fun _ =>
      Keeps.get.bind fun _ => Keeps.pure _

theorem StagesKeep.execution (h : StagesKeep hw I) (c : Call) : Keeps I (c.execution hw) := by
  have hexecute : ∀ opcode delaySlot, Keeps I (Processor.execute hw opcode delaySlot) :=
    fun opcode delaySlot => (h.dispatch opcode delaySlot).bind fun _ =>
      (h.execute _).bind fun _ => Keeps.pure _
  cases c with
  | step => exact (Keeps.get.bind fun _ => h.fetch _).bind fun _ => hexecute _ _
  | interpret opcode delaySlot => exact hexecute opcode delaySlot

theorem keeps_call_of_leaves {view : Registers → β} {P : β → Prop} {h : Hook σ α}
    (hh : h.Leaves view) : Keeps (fun p : Processor σ => P (view p.registers)) (call h) := by
  intro p hp
  rw [registers_call, hh]
  exact hp

/-- What holds of the registers that the hardware leaves alone holds up to the bookkeeping, if it
is not about R0 or Count. -/
theorem Leaves.stagesKeep {view : Registers → β} {P : β → Prop} (hhw : hw.Leaves view)
    (hzero : ∀ r : Registers, view r.clearZero = view r)
    (hcount : ∀ (r : Registers) v, view (r.setCop0 Cop0.count v) = view r) :
    StagesKeep hw fun p => P (view p.registers) where
  fetch address := keeps_call_of_leaves (hhw.fetch address)
  poll delaySlot := keeps_call_of_leaves (hhw.poll delaySlot)
  clearZero p hp := by
    rw [registers_onRegisters, hzero]
    exact hp
  startOver p hp := by
    unfold startOver
    split
    · change P (view (p.registers.setCop0 Cop0.count 0))
      rw [hcount]
      exact hp
    · exact hp
  decode opcode flags := keeps_call_of_leaves (hhw.decode opcode flags)
  execute i := keeps_call_of_leaves (hhw.execute i)

/-! ## The bookkeeping -/

def costOf (hw : Hardware σ ι) (f : InFlight ι) (p : Processor σ) : UInt64 :=
  (hw.cycles f.instruction p.hardware).1

def charged (hw : Hardware σ ι) (f : InFlight ι) (p : Processor σ) : Processor σ :=
  addCycles (costOf hw f p) { p with hardware := (hw.cycles f.instruction p.hardware).2 }

def retired (hw : Hardware σ ι) (f : InFlight ι) (p : Processor σ) : Processor σ :=
  let accumulator := p.accumulator + costOf hw f p
  let q := (charged hw f p).onRegisters (updateTimers accumulator f.wired)
  { q.onStatistics (·.retire q.machine.cycles) with accumulator }

theorem cop0_count_updateTimers (accumulator before : UInt64) (r : Registers) :
    (updateTimers accumulator before r).cop0 Cop0.count = accumulator >>> 1 := by
  unfold updateTimers
  rw [Registers.cop0_setCop0_of_ne (by decide), Registers.cop0_setCop0_self]

theorem cop0_random_updateTimers (accumulator before : UInt64) (r : Registers) :
    (updateTimers accumulator before r).cop0 Cop0.random =
      nextRandom (r.cop0 Cop0.random) before (r.cop0 Cop0.wired) := by
  unfold updateTimers
  rw [Registers.cop0_setCop0_self, Registers.cop0_setCop0_of_ne (by decide),
    Registers.cop0_setCop0_of_ne (by decide)]

theorem cop0_wired_updateTimers (accumulator before : UInt64) (r : Registers) :
    (updateTimers accumulator before r).cop0 Cop0.wired = r.cop0 Cop0.wired := by
  unfold updateTimers
  rw [Registers.cop0_setCop0_of_ne (by decide), Registers.cop0_setCop0_of_ne (by decide)]

theorem read_updateTimers {x : Register} (hcount : x ≠ .cop0 (Fin.ofNat 32 Cop0.count))
    (hrandom : x ≠ .cop0 (Fin.ofNat 32 Cop0.random)) (accumulator before : UInt64)
    (r : Registers) : (updateTimers accumulator before r).read x = r.read x := by
  unfold updateTimers
  rw [Registers.read_setCop0_of_ne hrandom, Registers.read_setCop0_of_ne hcount]

def HasRoom (hw : Hardware σ ι) (f : InFlight ι) (p : Processor σ) : Prop :=
  p.accumulator.toNat + (costOf hw f p).toNat < UInt64.size

instance (hw : Hardware σ ι) (f : InFlight ι) (p : Processor σ) : Decidable (HasRoom hw f p) :=
  inferInstanceAs (Decidable (_ < _))

theorem retire_eq (hw : Hardware σ ι) (f : InFlight ι) (p : Processor σ) :
    retire hw f p =
      if HasRoom hw f p then .ok () (retired hw f p)
      else .error .accumulatorOverflow (charged hw f p) := by
  have hask : askCycles hw f.instruction p =
      .ok (costOf hw f p) { p with hardware := (hw.cycles f.instruction p.hardware).2 } := rfl
  unfold retire
  rw [bind_of_ok hask, bind_of_ok (modify_apply _ _), bind_of_ok (get_apply _)]
  by_cases h : HasRoom hw f p
  · have hadd : accumulate (costOf hw f p) (charged hw f p) =
        .ok () { charged hw f p with accumulator := p.accumulator + costOf hw f p } := if_pos h
    rw [if_pos h]
    exact bind_of_ok hadd
  · have hadd : accumulate (costOf hw f p) (charged hw f p) =
        .error .accumulatorOverflow (charged hw f p) := if_neg h
    rw [if_neg h]
    exact bind_of_error hadd

theorem retire_ok_iff {f : InFlight ι} {p q : Processor σ} :
    retire hw f p = .ok () q ↔ HasRoom hw f p ∧ q = retired hw f p := by
  rw [retire_eq]
  split <;> simp_all [eq_comm]

theorem Call.perform_ok_iff {c : Call} {p q : Processor σ} :
    c.perform hw p = .ok () q ↔
      ∃ f r, c.execution hw p = .ok f r ∧ HasRoom hw f r ∧ q = retired hw f r := by
  rw [Call.perform_eq, bind_ok_iff]
  simp only [retire_ok_iff]

@[simp] theorem registers_retired (f : InFlight ι) (p : Processor σ) :
    (retired hw f p).registers =
      updateTimers (p.accumulator + costOf hw f p) f.wired p.registers := rfl

@[simp] theorem accumulator_retired (f : InFlight ι) (p : Processor σ) :
    (retired hw f p).accumulator = p.accumulator + costOf hw f p := rfl

/-! ## Whole runs -/

theorem steps_succ (hw : Hardware σ ι) (n : Nat) :
    steps hw (n + 1) = (do
      steps hw n
      step hw) := by
  induction n with
  | zero => exact bind_pure (step hw)
  | succ n ih =>
    calc steps hw (n + 2)
      _ = (do step hw; steps hw (n + 1)) := rfl
      _ = (do step hw; steps hw n; step hw) := by rw [ih]
      _ = (do steps hw (n + 1); step hw) := (bind_assoc _ _ _).symm

theorem steps_snoc {p q start : Processor σ} {n : Nat} (h : steps hw n start = .ok () p)
    (hstep : step hw p = .ok () q) : steps hw (n + 1) start = .ok () q := by
  rw [steps_succ, bind_of_ok h]
  exact hstep

theorem exists_steps_of_le {p q : Processor σ} {k n : Nat} (hk : k ≤ n)
    (h : steps hw n p = .ok () q) : ∃ r, steps hw k p = .ok () r := by
  induction hk generalizing q with
  | refl => exact ⟨q, h⟩
  | step _ ih =>
    rw [steps_succ] at h
    obtain ⟨_, r, hr, -⟩ := bind_ok_iff.mp h
    exact ih hr

theorem StagesKeep.perform (h : StagesKeep hw I) (hretire : ∀ f, Keeps I (retire hw f)) (c : Call) :
    Keeps I (c.perform hw) := by
  rw [Call.perform_eq]
  exact (h.execution c).bind hretire

theorem after_keeps {us : List (Use σ)} (h : ∀ u ∈ us, ∀ p, I p → I (afterUse hw p u))
    {p : Processor σ} (hp : I p) : I (after hw p us) := by
  induction us generalizing p with
  | nil => exact hp
  | cons u us ih =>
    have hu := h u List.mem_cons_self p hp
    exact ih (fun v hv => h v (List.mem_cons_of_mem _ hv)) hu

end Processor

end ConsoleCore
