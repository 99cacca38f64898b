import ConsoleCore.Proofs.Processor.Random
import ConsoleCore.Proofs.Processor.Recorded

/-!
# What a poll can change

The opcode is fetched before the interrupts are served. So whatever they do to the program counter
or to the memory, the next instruction is the one that was fetched. It finds the registers as they
were left by the poll, and Wired counts as changed only if the instruction itself changes it.
-/

namespace ConsoleCore

variable {σ ι : Type}

/-- The same hardware with another interrupt controller. -/
def Hardware.polledBy (hw : Hardware σ ι) (poll : Bool → Hook σ Unit) : Hardware σ ι :=
  { hw with poll }

def Hardware.DecodesByOpcode (hw : Hardware σ ι) : Prop :=
  ∀ opcode flags b b' i i' c c', hw.decode opcode flags b = .ok i c →
    hw.decode opcode flags b' = .ok i' c' → i = i'

namespace Processor

variable {hw : Hardware σ ι} {p q : Processor σ} {opcode : UInt32} {i : ι}

/-! ## The opcode -/

theorem fetched_of_decode_mem {flags : DecodeFlags}
    (h : .decode opcode flags ∈ callsOf (step hw.recorded) p) :
    flags = ⟨true, false⟩ ∧
      ∃ fetched, call (hw.fetch p.registers.pc.toUInt32) p = .ok opcode fetched := by
  cases stepCall_of_mem hw h with
  | decode hfetch hpoll => exact ⟨rfl, _, hfetch⟩

theorem decoded_of_execute_mem {found : Registers} {fetched polled : Processor σ}
    (hfetch : call (hw.fetch p.registers.pc.toUInt32) p = .ok opcode fetched)
    (hpoll : call (hw.poll false) fetched = .ok () polled)
    (h : .execute i found ∈ callsOf (step hw.recorded) p) :
    ∃ decoded, call (hw.decode opcode ⟨true, false⟩) (readied polled) = .ok i decoded ∧
      found = decoded.registers := by
  cases stepCall_of_mem hw h with
  | execute hfetch' hpoll' hdecode =>
    rw [hfetch] at hfetch'
    cases hfetch'
    rw [hpoll] at hpoll'
    cases hpoll'
    exact ⟨_, hdecode, rfl⟩

theorem fetched_of_execute_mem {found : Registers}
    (h : .execute i found ∈ callsOf (step hw.recorded) p) :
    ∃ opcode fetched b c, call (hw.fetch p.registers.pc.toUInt32) p = .ok opcode fetched ∧
      hw.decode opcode ⟨true, false⟩ b = .ok i c := by
  cases stepCall_of_mem hw h with
  | execute hfetch hpoll hdecode =>
    obtain ⟨c, hc, -⟩ := call_ok_iff.mp hdecode
    exact ⟨_, _, _, c, hfetch, hc⟩

theorem instruction_unique {poll poll' : Bool → Hook σ Unit} {i' : ι} {found found' : Registers}
    (hdecode : hw.DecodesByOpcode)
    (h : .execute i found ∈ callsOf (step (hw.polledBy poll).recorded) p)
    (h' : .execute i' found' ∈ callsOf (step (hw.polledBy poll').recorded) p) : i = i' := by
  obtain ⟨opcode, fetched, b, c, hfetch, hc⟩ := fetched_of_execute_mem h
  obtain ⟨opcode', fetched', b', c', hfetch', hc'⟩ := fetched_of_execute_mem h'
  have hsame : (EStateM.Result.ok opcode fetched : EStateM.Result Fault (Processor σ) UInt32) =
      .ok opcode' fetched' := hfetch.symm.trans hfetch'
  cases hsame
  exact hdecode opcode _ b b' i i' c c' hc hc'

/-! ## The registers -/

theorem registers_of_call_ok {α : Type} {h : Hook σ α} {a : α}
    (hleaves : h.Leaves id) (hc : call h p = .ok a q) : q.registers = p.registers := by
  have hregisters := registers_call h p
  rw [hc] at hregisters
  exact hregisters.trans (hleaves p.bus)

theorem read_of_decode {polled decoded : Processor σ}
    (hdecode : call (hw.decode opcode ⟨true, false⟩) (readied polled) = .ok i decoded)
    (hleaves : (hw.decode opcode ⟨true, false⟩).Leaves id) (x : Register) :
    decoded.registers.read x = if x = .r0 ∨
        x = .cop0 (Fin.ofNat 32 Cop0.count) ∧ accumulatorLimit ≤ polled.accumulator then 0
      else polled.registers.read x := by
  rw [registers_of_call_ok hleaves hdecode, read_readied]

/-! ## After the execution -/

theorem pc_of_retire {f : InFlight ι} {executed : Processor σ}
    (h : retire hw f executed = .ok () q) : q.registers.pc = executed.registers.pc := by
  obtain ⟨-, rfl⟩ := retire_ok_iff.mp h
  exact read_updateTimers (x := .pc) (by decide) (by decide) _ _ _

theorem callsOf_next_step {f : InFlight ι} {executed : Processor σ}
    (h : retire hw f executed = .ok () q) (next : Hardware σ ι) :
    ∃ later, callsOf (step next.recorded) q = .fetch executed.registers.pc.toUInt32 :: later := by
  rw [callsOf_step, pc_of_retire h]
  exact ⟨_, rfl⟩

/-! ## Any poll -/

/-- An instruction executes the word that was fetched before the poll, on the registers that the
poll left. -/
theorem executes_word_fetched_before_poll (hw : Hardware σ ι) (p : Processor σ) :
    let flags : DecodeFlags := ⟨true, false⟩
    let word := call (hw.fetch p.registers.pc.toUInt32) p
    let calls (poll : Bool → Hook σ Unit) := callsOf (step (hw.polledBy poll).recorded) p
    (∀ poll poll' o o' f f', .decode o f ∈ calls poll → .decode o' f' ∈ calls poll' →
      o = o' ∧ f = f' ∧ ∃ fetched, word = .ok o fetched) ∧
    (hw.DecodesByOpcode → ∀ poll poll' i i' found found', .execute i found ∈ calls poll →
      .execute i' found' ∈ calls poll' → i = i') ∧
    ∀ poll opcode fetched polled, word = .ok opcode fetched →
      call (poll false) fetched = .ok () polled →
      .decode opcode flags ∈ calls poll ∧
      (∀ i found, .execute i found ∈ calls poll → ∃ decoded,
        call (hw.decode opcode flags) (readied polled) = .ok i decoded ∧
        found = decoded.registers ∧
        ((hw.decode opcode flags).Leaves id → ∀ x, found.read x =
          if x = .r0 ∨ x = .cop0 (Fin.ofNat 32 Cop0.count) ∧ accumulatorLimit ≤ p.accumulator
          then 0 else polled.registers.read x)) ∧
      ∀ q, step (hw.polledBy poll) p = .ok () q → ∃ i decoded executed,
        calls poll = [.fetch p.registers.pc.toUInt32, .poll false fetched.registers,
          .decode opcode flags, .execute i decoded.registers, .cycles i] ∧
        call (Hook.withoutWaiting (hw.execute i)) decoded = .ok () executed ∧
        (∀ next : Hardware σ ι, ∃ later,
          callsOf (step next.recorded) q = .fetch executed.registers.pc.toUInt32 :: later) ∧
        let before := decoded.registers.cop0 Cop0.wired
        let wired := executed.registers.cop0 Cop0.wired
        let random := executed.registers.cop0 Cop0.random - 1
        ((hw.decode opcode flags).Leaves id → before = polled.registers.cop0 Cop0.wired) ∧
        (wired = before → q.registers.cop0 Cop0.random =
          if random = 0 ∨ random < wired then 0x1f else random) ∧
        (wired ≠ before → q.registers.cop0 Cop0.random = 0x1f) := by
  intro flags word calls
  refine ⟨fun poll poll' o o' f f' h h' => ?_, fun hdecode poll poll' i i' found found' h h' =>
    instruction_unique hdecode h h', fun poll opcode fetched polled hword hpoll => ?_⟩
  · obtain ⟨rfl, fetched, hfetch⟩ := fetched_of_decode_mem h
    obtain ⟨rfl, fetched', hfetch'⟩ := fetched_of_decode_mem h'
    have hsame : (EStateM.Result.ok o fetched : EStateM.Result Fault (Processor σ) UInt32) =
        .ok o' fetched' := hfetch.symm.trans hfetch'
    cases hsame
    exact ⟨rfl, rfl, fetched, hfetch⟩
  have hfetched : call ((hw.polledBy poll).fetch p.registers.pc.toUInt32) p =
      .ok opcode fetched := hword
  have hpolled : call ((hw.polledBy poll).poll false) fetched = .ok () polled := hpoll
  refine ⟨?_, fun i found h => ?_, fun q hstep => ?_⟩
  · change .decode opcode flags ∈ callsOf (step (hw.polledBy poll).recorded) p
    simp only [callsOf_step, hfetched, callsOf_interpret, hpolled, callsOf_decodeAndComplete]
    exact .tail _ (.tail _ (.head _))
  · obtain ⟨decoded, hdecode, rfl⟩ := decoded_of_execute_mem hfetched hpolled h
    have haccumulator : polled.accumulator = p.accumulator :=
      (accumulator_of_call_ok hpolled).trans (accumulator_of_call_ok hfetched)
    refine ⟨decoded, hdecode, rfl, fun hleaves x => ?_⟩
    rw [← haccumulator]
    exact read_of_decode hdecode hleaves x
  · obtain ⟨s, hretire⟩ := exists_stages hstep
    have hrandom := random_of_retire hretire
    have hcalls := s.callsOf_step
    have hnext := callsOf_next_step hretire
    -- The stages of the step are those that the hypotheses name.
    obtain ⟨_, i, _, _, decoded, executed, hfetch, hpoll', hdecode, hexecute⟩ := s
    cases hfetched.symm.trans hfetch
    cases hpolled.symm.trans hpoll'
    refine ⟨i, decoded, executed, hcalls, hexecute, hnext, fun hleaves => ?_, fun hwired => ?_,
      fun hwired => hrandom.trans (nextRandom_of_ne hwired _)⟩
    · rw [registers_of_call_ok hleaves hdecode, wired_readied]
    · refine hrandom.trans ?_
      change nextRandom _ (decoded.registers.cop0 Cop0.wired) _ = _
      rw [← hwired]
      exact nextRandom_self _ _

/-- The interrupt overwrites the only word of the memory, and it writes the program counter, Wired,
Count and R2. The instruction writes the opcode to R1. -/
theorem executes_seven_after_interrupt :
    let hw : Hardware UInt32 UInt32 := {
      readByte := fun word _ => word.toUInt8
      writeByte := fun _ _ byte => byte.toUInt32
      fetch := fun _ => return (← get).hardware
      poll := fun _ => pure ()
      decode := fun opcode _ => pure opcode
      execute := fun i => do
        modify fun s => { s with
          registers := (s.registers.setGpr 1 i.toUInt64).setPc (s.registers.pc + 4) }
        return none
      cycles := fun _ word => (1, word)
      writeScanline := fun _ => pure ()
      pollScanline := fun _ => return none
      powerOnCop0 := pure ()
      powerOnCop1 := pure () }
    let interrupt (_ : Bool) : Hook UInt32 Unit := modify fun s => { s with
      hardware := 9
      registers := s.registers.writeAll
        [.pc 0x80, .cop0 Cop0.wired 4, .cop0 Cop0.count 77, .gpr 2 5] }
    let p : Processor UInt32 :=
      { hardware := 7, machine := { registers := .atReset }, accumulator := accumulatorLimit }
    let calls (poll : Bool → Hook UInt32 Unit) := callsOf (step (hw.polledBy poll).recorded) p
    (∀ i found i' found', .execute i found ∈ calls interrupt → .execute i' found' ∈ calls hw.poll →
      i = i') ∧
    .decode 7 ⟨true, false⟩ ∈ calls interrupt ∧
    (∀ o flags, .decode o flags ∈ calls hw.poll → o = 7) ∧
    (∀ i found, .execute i found ∈ calls interrupt → i = 7 ∧ found.pc = 0x80 ∧
      found.cop0 Cop0.count = 0 ∧ found.cop0 Cop0.random = 0x1f ∧ found.gpr 2 = 5) ∧
    ∃ q later, step (hw.polledBy interrupt) p = .ok () q ∧
      callsOf (step hw.recorded) q = .fetch 0x84 :: later ∧
      q.registers.cop0 Cop0.random = 0x1e := by
  intro hw interrupt p calls
  obtain ⟨hsame, hexecutes, hpolls⟩ := executes_word_fetched_before_poll hw p
  have hopcode : hw.DecodesByOpcode := by
    rintro opcode flags b b' i i' c c' ⟨⟩ ⟨⟩
    rfl
  have hleaves : (hw.decode 7 ⟨true, false⟩).Leaves id := fun _ => rfl
  obtain ⟨hdecodes, hexecute, hcompletes⟩ := hpolls interrupt 7 p _ rfl rfl
  have hfound (i : UInt32) (found : Registers) (h : .execute i found ∈ calls interrupt) :
      i = 7 ∧ found.pc = 0x80 ∧ found.cop0 Cop0.count = 0 ∧ found.cop0 Cop0.random = 0x1f ∧
        found.gpr 2 = 5 := by
    obtain ⟨decoded, ⟨⟩, -, hread⟩ := hexecute i found h
    have hread := hread hleaves
    exact ⟨rfl, hread .pc, hread (.cop0 (Fin.ofNat 32 Cop0.count)),
      hread (.cop0 (Fin.ofNat 32 Cop0.random)), hread (.gpr 2)⟩
  have hcompleted : completes (step (hw.polledBy interrupt) p) = true := by decide +kernel
  have hstep := eq_ok_of_completes hcompleted
  obtain ⟨i, decoded, executed, hcalls, hexecuted, hnext, hbefore, hreload, -⟩ :=
    hcompletes _ hstep
  have hmem : .execute i decoded.registers ∈ calls interrupt :=
    Eq.mpr (congrArg (_ ∈ ·) hcalls) (.tail _ (.tail _ (.tail _ (.head _))))
  obtain ⟨-, hpc, -, hrandom, -⟩ := hfound i _ hmem
  have hregisters : executed.registers =
      (decoded.registers.setGpr 1 i.toUInt64).setPc (decoded.registers.pc + 4) := by
    obtain ⟨⟨hardware, ⟨registers, powered, cycles, statistics⟩⟩, accumulator⟩ := decoded
    cases hexecuted
    rfl
  have hpc' : executed.registers.pc = 0x84 := by
    rw [hregisters]
    exact congrArg (· + 4) hpc
  have hrandom' : executed.registers.cop0 Cop0.random = 0x1f := by
    rw [hregisters]
    exact hrandom
  have hwired : decoded.registers.cop0 Cop0.wired = 4 := hbefore hleaves
  have hwired' : executed.registers.cop0 Cop0.wired = 4 := by
    rw [hregisters]
    exact hwired
  obtain ⟨later, hlater⟩ := hnext hw
  rw [hpc'] at hlater
  rw [hrandom', hwired', hwired] at hreload
  refine ⟨fun i found i' found' h h' => hexecutes hopcode interrupt hw.poll i i' found found' h h',
    hdecodes, fun o flags h => ?_, hfound, _, later, hstep, hlater, hreload rfl⟩
  exact (hsame hw.poll interrupt o 7 flags _ h hdecodes).1

end Processor

end ConsoleCore
