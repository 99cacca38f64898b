import ConsoleCore.Proofs.Processor.Count

/-!
# Instructions that fault

A fault cuts an instruction short and takes nothing back. Of what the processor does by itself, an
instruction that faults in a hook has done one thing at most, which is to let the accumulator start
over. One that faults over its cost has been executed and charged, but not retired.
-/

namespace ConsoleCore

variable {σ ι α β : Type}

namespace Rig

structure SameCounts (r r' : Rig σ) : Prop where
  cycles : r'.machine.cycles = r.machine.cycles
  statistics : r'.machine.statistics = r.machine.statistics

theorem keeps_sameCounts_call (r : Rig σ) (h : Hook σ α) : Keeps (SameCounts r) (call h) :=
  fun t ht => ⟨(cycles_call h t).trans ht.cycles, (statistics_call h t).trans ht.statistics⟩

theorem keeps_view_registers_call {view : Registers → β} {P : β → Prop} {h : Hook σ α}
    (hh : h.Leaves view) : Keeps (fun r : Rig σ => P (view r.machine.registers)) (call h) := by
  intro r hr
  rw [endState_call]
  exact (congrArg P (hh r.bus)).mpr hr

def clearCount (r : Rig σ) : Rig σ :=
  { r with machine := { r.machine with registers := r.machine.registers.setCop0 Cop0.count 0 } }

end Rig

namespace Processor

variable {hw : Hardware σ ι}

/-! ## What the hooks do on their own -/

/-- The hooks that are called before the opcode is decoded. The answer is the opcode, and whether it
sits in a delay slot. -/
def Call.fetchAndPoll (hw : Hardware σ ι) : Call → EStateM Fault (Rig σ) (UInt32 × Bool)
  | step => do
    let opcode ← Rig.call (hw.fetch (← get).machine.registers.pc.toUInt32)
    Rig.call (hw.poll false)
    return (opcode, false)
  | interpret opcode delaySlot => do
    Rig.call (hw.poll delaySlot)
    return (opcode, delaySlot)

def decodeAndExecute (hw : Hardware σ ι) (request : UInt32 × Bool) :
    EStateM Fault (Rig σ) (InFlight ι) := do
  let instruction ← Rig.call (hw.decode request.1 { kernel := true, delaySlot := request.2 })
  let wired := (← get).machine.registers.cop0 Cop0.wired
  Rig.call (Hook.withoutWaiting (hw.execute instruction))
  return { instruction, wired }

theorem keeps_fetchAndPoll {J : Rig σ → Prop} (hfetch : ∀ a, Keeps J (Rig.call (hw.fetch a)))
    (hpoll : ∀ delaySlot, Keeps J (Rig.call (hw.poll delaySlot))) (c : Call) :
    Keeps J (c.fetchAndPoll hw) := by
  cases c with
  | step =>
    exact (Keeps.get.bind fun _ => hfetch _).bind fun _ => (hpoll _).bind fun _ => Keeps.pure _
  | interpret opcode delaySlot => exact (hpoll _).bind fun _ => Keeps.pure _

theorem keeps_decodeAndExecute {J : Rig σ → Prop}
    (hdecode : ∀ opcode flags, Keeps J (Rig.call (hw.decode opcode flags)))
    (hexecute : ∀ i, Keeps J (Rig.call (Hook.withoutWaiting (hw.execute i))))
    (request : UInt32 × Bool) : Keeps J (decodeAndExecute hw request) :=
  (hdecode _ _).bind fun _ => Keeps.get.bind fun _ => (hexecute _).bind fun _ => Keeps.pure _

/-! ## Hooks within an instruction -/

def onRig (x : EStateM Fault (Rig σ) α) : Action σ α
  | ⟨rig, accumulator⟩ =>
    match x rig with
    | .ok a rig => .ok a ⟨rig, accumulator⟩
    | .error e rig => .error e ⟨rig, accumulator⟩

theorem onRig_of_ok {x : EStateM Fault (Rig σ) α} {r r' : Rig σ} {a : α} (h : x r = .ok a r')
    (accumulator : UInt64) : onRig x ⟨r, accumulator⟩ = .ok a ⟨r', accumulator⟩ := by
  simp only [onRig, h]

theorem onRig_of_error {x : EStateM Fault (Rig σ) α} {r r' : Rig σ} {e : Fault}
    (h : x r = .error e r') (accumulator : UInt64) :
    onRig x ⟨r, accumulator⟩ = .error e ⟨r', accumulator⟩ := by
  simp only [onRig, h]

theorem onRig_bind (x : EStateM Fault (Rig σ) α) (f : α → EStateM Fault (Rig σ) β) :
    onRig (x >>= f) = onRig x >>= fun a => onRig (f a) := by
  funext ⟨r, accumulator⟩
  cases h : x r with
  | ok a r' =>
    rw [bind_of_ok (onRig_of_ok h accumulator)]
    simp only [onRig, bind_of_ok h]
  | error e r' =>
    rw [bind_of_error (onRig_of_error h accumulator)]
    simp only [onRig, bind_of_error h]

theorem onRig_call (h : Hook σ α) : onRig (Rig.call h) = call h := rfl

theorem onRig_pure (a : α) : onRig (pure a : EStateM Fault (Rig σ) α) = pure a := rfl

theorem Call.execution_eq (hw : Hardware σ ι) (c : Call) :
    c.execution hw = (do
      let request ← onRig (c.fetchAndPoll hw)
      modify (·.onRegisters Registers.clearZero)
      modify startOver
      onRig (decodeAndExecute hw request)) := by
  unfold decodeAndExecute
  cases c with
  | step =>
    simp only [execution, execute, dispatch, fetch, fetchAndPoll, onRig_bind, onRig_call,
      onRig_pure, bind_assoc, pure_bind]
    rfl
  | interpret opcode delaySlot =>
    simp only [execution, execute, dispatch, fetchAndPoll, onRig_bind, onRig_call,
      onRig_pure, bind_assoc, pure_bind]
    rfl

theorem startOver_eq (r : Rig σ) (accumulator : UInt64) :
    startOver ⟨r, accumulator⟩ =
      if accumulatorLimit ≤ accumulator then ⟨r.clearCount, 0⟩ else ⟨r, accumulator⟩ := rfl

variable {c : Call} {p q : Processor σ} {r : Rig σ} {request : UInt32 × Bool} {e : Fault}

theorem execution_of_error (h : c.fetchAndPoll hw p.toRig = .error e r) :
    c.execution hw p = .error e ⟨r, p.accumulator⟩ := by
  rw [Call.execution_eq]
  exact bind_of_error (onRig_of_error h p.accumulator)

theorem execution_of_ok (h : c.fetchAndPoll hw p.toRig = .ok request r)
    (hzero : r.machine.registers.read .r0 = 0) :
    c.execution hw p = onRig (decodeAndExecute hw request) (startOver ⟨r, p.accumulator⟩) := by
  rw [Call.execution_eq, bind_of_ok (onRig_of_ok h p.accumulator), bind_of_ok (modify_apply _ _),
    bind_of_ok (modify_apply _ _)]
  have hclear : onRegisters Registers.clearZero ⟨r, p.accumulator⟩ = ⟨r, p.accumulator⟩ := by
    obtain ⟨hardware, registers, powered, cycles, statistics⟩ := r
    simp only [onRegisters, Registers.clearZero_eq_self hzero]
  rw [hclear]

/-! ## Where an instruction faults -/

theorem not_hasRoom_iff {f : InFlight ι} {p : Processor σ} :
    ¬ HasRoom hw f p ↔ 0xffffffffffffffff - p.accumulator < costOf hw f p := by
  have hmax : (0xffffffffffffffff : UInt64).toNat = 0xffffffffffffffff := rfl
  have hacc := p.accumulator.toNat_lt
  have hle : p.accumulator ≤ 0xffffffffffffffff := by
    rw [UInt64.le_iff_toNat_le]
    omega
  rw [UInt64.lt_iff_toNat_lt, UInt64.toNat_sub_of_le _ _ hle]
  unfold HasRoom UInt64.size
  omega

theorem fault_of_onRig {x : EStateM Fault (Rig σ) (InFlight ι)} {accumulator : UInt64}
    (hexec : c.execution hw p = onRig x ⟨r, accumulator⟩) (h : c.perform hw p = .error e q) :
    (x r = .error e q.toRig ∧ q.accumulator = accumulator) ∨
      ∃ f r', x r = .ok f r' ∧ ¬ HasRoom hw f ⟨r', accumulator⟩ ∧ e = .accumulatorOverflow ∧
        q = charged hw f ⟨r', accumulator⟩ := by
  rw [Call.perform_eq] at h
  cases hx : x r with
  | error e' r' =>
    rw [bind_of_error (hexec.trans (onRig_of_error hx accumulator))] at h
    cases h
    exact .inl ⟨rfl, rfl⟩
  | ok f r' =>
    rw [bind_of_ok (hexec.trans (onRig_of_ok hx accumulator)), retire_eq] at h
    split at h
    · cases h
    · rename_i hroom
      cases h
      exact .inr ⟨f, r', rfl, hroom, rfl, rfl⟩

def FaultsEarly (hw : Hardware σ ι) (c : Call) (p : Processor σ) (e : Fault) (q : Processor σ) :
    Prop :=
  c.fetchAndPoll hw p.toRig = .error e q.toRig ∧ q.accumulator = p.accumulator

/-- The decoder or the instruction faults. If the accumulator was at its limit, it has started over
together with Count. -/
def FaultsLate (hw : Hardware σ ι) (c : Call) (p : Processor σ) (e : Fault) (q : Processor σ) :
    Prop :=
  ∃ request r, c.fetchAndPoll hw p.toRig = .ok request r ∧
    if accumulatorLimit ≤ p.accumulator then
      decodeAndExecute hw request r.clearCount = .error e q.toRig ∧ q.accumulator = 0
    else decodeAndExecute hw request r = .error e q.toRig ∧ q.accumulator = p.accumulator

/-- The instruction was executed, but the accumulator, which was below its limit, has no room for
its cost. -/
def FaultsOverCost (hw : Hardware σ ι) (c : Call) (p : Processor σ) (e : Fault)
    (q : Processor σ) : Prop :=
  ∃ request r f r', c.fetchAndPoll hw p.toRig = .ok request r ∧
    decodeAndExecute hw request r = .ok f r' ∧
    let cost := (hw.cycles f.instruction r'.hardware).1
    p.accumulator < accumulatorLimit ∧ 0xffffffffffffffff - p.accumulator < cost ∧
      e = .accumulatorOverflow ∧ q.machine.cycles = p.machine.cycles + cost ∧
      q.accumulator = p.accumulator ∧ q.registers = r'.machine.registers

theorem keeps_sameCounts_fetchAndPoll (hw : Hardware σ ι) (c : Call) (r : Rig σ) :
    Keeps (Rig.SameCounts r) (c.fetchAndPoll hw) :=
  keeps_fetchAndPoll (fun _ => Rig.keeps_sameCounts_call r _)
    (fun _ => Rig.keeps_sameCounts_call r _) c

theorem keeps_sameCounts_decodeAndExecute (hw : Hardware σ ι) (request : UInt32 × Bool)
    (r : Rig σ) : Keeps (Rig.SameCounts r) (decodeAndExecute hw request) :=
  keeps_decodeAndExecute (fun _ _ => Rig.keeps_sameCounts_call r _)
    (fun _ => Rig.keeps_sameCounts_call r _) request

theorem r0_of_fetchAndPoll (hhw : hw.Leaves (·.read .r0)) (hzero : p.registers.read .r0 = 0)
    (h : c.fetchAndPoll hw p.toRig = .ok request r) : r.machine.registers.read .r0 = 0 := by
  have hkeeps : Keeps (fun r : Rig σ => r.machine.registers.read .r0 = 0) (c.fetchAndPoll hw) :=
    keeps_fetchAndPoll (fun a => Rig.keeps_view_registers_call (P := (· = 0)) (hhw.fetch a))
      (fun d => Rig.keeps_view_registers_call (P := (· = 0)) (hhw.poll d)) c
  exact hkeeps.of_ok hzero h

theorem hasRoom_of_zero (f : InFlight ι) (r : Rig σ) : HasRoom hw f ⟨r, 0⟩ := by
  have hcost := (costOf hw f ⟨r, 0⟩).toNat_lt
  unfold HasRoom UInt64.size
  simpa using hcost

theorem fault_cases (hhw : hw.Leaves (·.read .r0)) (hzero : p.registers.read .r0 = 0)
    (h : c.perform hw p = .error e q) :
    (FaultsEarly hw c p e q ∨ FaultsLate hw c p e q) ∧ Rig.SameCounts p.toRig q.toRig ∨
      FaultsOverCost hw c p e q ∧ q.machine.statistics = p.machine.statistics := by
  have hstart : Rig.SameCounts p.toRig p.toRig := ⟨rfl, rfl⟩
  have hfirst := keeps_sameCounts_fetchAndPoll hw c p.toRig
  cases hearly : c.fetchAndPoll hw p.toRig with
  | error e' r =>
    rw [Call.perform_eq, bind_of_error (execution_of_error hearly)] at h
    cases h
    exact .inl ⟨.inl ⟨hearly, rfl⟩, hfirst.of_error hstart hearly⟩
  | ok request r =>
    have hcounts : Rig.SameCounts p.toRig r := hfirst.of_ok hstart hearly
    have hcleared : Rig.SameCounts p.toRig r.clearCount := ⟨hcounts.cycles, hcounts.statistics⟩
    have hsecond := keeps_sameCounts_decodeAndExecute hw request p.toRig
    have hexec := execution_of_ok hearly (r0_of_fetchAndPoll hhw hzero hearly)
    rw [startOver_eq] at hexec
    -- The accumulator decides what the decoder finds, and whether there is room afterwards.
    by_cases hlimit : accumulatorLimit ≤ p.accumulator
    · rw [if_pos hlimit] at hexec
      rcases fault_of_onRig hexec h with hfault | ⟨f, r', -, hroom, -⟩
      · refine .inl ⟨.inr ⟨request, r, hearly, ?_⟩, hsecond.of_error hcleared hfault.1⟩
        rw [if_pos hlimit]
        exact hfault
      · exact absurd (hasRoom_of_zero f r') hroom
    · rw [if_neg hlimit] at hexec
      rcases fault_of_onRig hexec h with hfault | ⟨f, r', hok, hroom, rfl, rfl⟩
      · refine .inl ⟨.inr ⟨request, r, hearly, ?_⟩, hsecond.of_error hcounts hfault.1⟩
        rw [if_neg hlimit]
        exact hfault
      · have hend : Rig.SameCounts p.toRig r' := hsecond.of_ok hcounts hok
        have hcycles : (charged hw f ⟨r', p.accumulator⟩).machine.cycles =
            p.machine.cycles + (hw.cycles f.instruction r'.hardware).1 :=
          congrArg (· + (hw.cycles f.instruction r'.hardware).1) hend.cycles
        exact .inr ⟨⟨request, r, f, r', hearly, hok, UInt64.not_le.mp hlimit,
          not_hasRoom_iff.mp hroom, rfl, hcycles, rfl, rfl⟩, hend.statistics⟩

/-- An instruction that faults keeps what its hooks did to the registers and leaves the counts
alone, but for a cost that does not fit. -/
theorem fault_keeps_what_hooks_did (hhw : hw.Leaves (·.read .r0))
    (hzero : p.registers.read .r0 = 0) (h : c.perform hw p = .error e q) :
    ((FaultsEarly hw c p e q ∨ FaultsLate hw c p e q) ∧ q.machine.cycles = p.machine.cycles ∨
      FaultsOverCost hw c p e q) ∧
    q.machine.statistics = p.machine.statistics ∧
    ∀ (us : List (Use σ)) (c' : Call) (q' : Processor σ),
      c'.perform hw (after hw q us) = .ok () q' →
        q'.machine.statistics.cycles = q'.machine.cycles ∧
          q'.registers.cop0 Cop0.count = q'.accumulator >>> 1 := by
  have hnext (us : List (Use σ)) (c' : Call) (q' : Processor σ)
      (hc' : c'.perform hw (after hw q us) = .ok () q') :
      q'.machine.statistics.cycles = q'.machine.cycles ∧
        q'.registers.cop0 Cop0.count = q'.accumulator >>> 1 := by
    obtain ⟨f, s, -, -, rfl⟩ := Call.perform_ok_iff.mp hc'
    exact ⟨rfl, count_retired f s⟩
  rcases fault_cases hhw hzero h with ⟨hfault, hcounts⟩ | ⟨hfault, hstatistics⟩
  · exact ⟨.inl ⟨hfault, hcounts.cycles⟩, hcounts.statistics, hnext⟩
  · exact ⟨.inr hfault, hstatistics, hnext⟩

/-! ## The scripted board -/

theorem r0_apply (op : Scripted.Operation) (r : Registers) :
    (op.apply r).read .r0 = r.read .r0 := by
  have hset (a : Nat) (v : UInt64) : (r.setGpr a v).read .r0 = r.read .r0 :=
    r.r0_write (.gpr a v)
  cases op with
  | branchNonzero a words =>
    simp only [Scripted.Operation.apply]
    split <;> rfl
  | loadImmediate | fromCop0 | addImmediate | shiftLeft | fromHi | fromLo => exact hset _ _
  | _ => rfl

theorem leaves_r0_scripted : Scripted.Board.hardware.Leaves (·.read .r0) where
  fetch _ _ := rfl
  poll _ _ := Registers.r0_writeAll _ _
  decode _ _ _ := rfl
  execute i b := by
    simp only [Hook.withoutWaiting, Scripted.Board.hardware, Scripted.Board.hardwareWithoutInit,
      Scripted.Board.execute, bind_assoc]
    rw [bind_of_ok (get_apply b)]
    generalize b.hardware.operationOf i = op
    cases op with
    | finish ending => cases ending <;> rfl
    | storeWord a j => exact r0_apply _ _
    | loadWord a j => exact (r0_apply _ _).trans (Registers.r0_write _ (.gpr a _))
    | _ => exact r0_apply _ _

/-- The interrupt controller writes Count and R5, and then the instruction panics with the
accumulator at its limit. -/
theorem scripted_faults_leave_books :
    let hw := Scripted.Board.hardware
    let p : Processor Scripted.Board := {
      hardware := {
        costs := [(1, 0xffffffffffffffff)]
        polls := [(0, [.cop0 Cop0.count 7, .gpr 5 9])] }
      machine := {}
      accumulator := 0xffffffff }
    let panic : Call := .interpret 0xf2000000 false
    let nothing : Call := .interpret 0 false
    let expensive : Call := .interpret 0x01030008 false
    let q := endState (panic.perform hw p)
    let s := after hw q [.call nothing]
    let t := endState (expensive.perform hw s)
    let u := endState (nothing.perform hw t)
    panic.perform hw p = .error (.hardware "scripted panic") q ∧
      q.accumulator = 0 ∧ q.registers.cop0 Cop0.count = 0 ∧ q.registers.gpr 5 = 9 ∧
      q.machine.statistics = p.machine.statistics ∧
    expensive.perform hw s = .error .accumulatorOverflow t ∧
      t.accumulator = 1 ∧ t.machine.cycles = 0 ∧ t.registers.gpr 3 = 8 ∧
      t.machine.statistics = s.machine.statistics ∧
    nothing.perform hw t = .ok () u ∧
      u.machine.statistics.cycles = u.machine.cycles ∧ u.registers.cop0 Cop0.count = 1 := by
  intro hw p panic nothing expensive q s t u
  have hpanic : panic.perform hw p = .error (.hardware "scripted panic") q :=
    eq_error_of_fault? (by decide +kernel)
  have hexpensive : expensive.perform hw s = .error .accumulatorOverflow t :=
    eq_error_of_fault? (by decide +kernel)
  have hlast : nothing.perform hw t = .ok () u := eq_ok_of_completes (by decide +kernel)
  have hzero : s.registers.read .r0 = 0 := by decide +kernel
  obtain ⟨-, hstatistics, -⟩ := fault_keeps_what_hooks_did leaves_r0_scripted rfl hpanic
  obtain ⟨-, hstatistics', hnext⟩ := fault_keeps_what_hooks_did leaves_r0_scripted hzero hexpensive
  obtain ⟨hcycles, hcount⟩ := hnext [] nothing u hlast
  refine ⟨hpanic, ?_, ?_, ?_, hstatistics, hexpensive, ?_, ?_, ?_, hstatistics', hlast, hcycles,
    hcount.trans ?_⟩ <;> decide +kernel

end Processor

end ConsoleCore
