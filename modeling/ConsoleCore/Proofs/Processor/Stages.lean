import ConsoleCore.Proofs.Processor.Faults

/-!
# The stages of an instruction

Fetch, poll, decoder, execution: each stage starts from what the one before it left behind. The
processor itself steps in only once, between the poll and the decoder.
-/

namespace ConsoleCore

variable {σ ι α : Type} {hw : Hardware σ ι}

namespace Registers

theorem read_clearZero_eq (r : Registers) (x : Register) :
    r.clearZero.read x = if x = .r0 then 0 else r.read x := by
  cases x with
  | gpr i =>
    have hzero : (i : Nat) % 32 = 0 ↔ Register.gpr i = .r0 := by
      simp only [Register.r0, Register.gpr.injEq, Fin.ext_iff, Nat.mod_eq_of_lt i.isLt]
      rfl
    simp only [read, gpr_clearZero, hzero]
  | cop0 | hi | lo | pc => rfl

theorem read_setCop0_self (r : Registers) (i : Nat) (v : UInt64) :
    (r.setCop0 i v).read (.cop0 (Fin.ofNat 32 i)) = v := by
  have hindex : i % 32 = (Fin.ofNat 32 i : Nat) % 32 := by
    rw [Fin.val_ofNat, Nat.mod_mod]
  exact (cop0_setCop0 r i _ v).trans (if_pos hindex)

end Registers

theorem Rig.SameCounts.trans {r s t : Rig σ} (hrs : SameCounts r s) (hst : SameCounts s t) :
    SameCounts r t :=
  ⟨hst.cycles.trans hrs.cycles, hst.statistics.trans hrs.statistics⟩

namespace Processor

/-! ## Between the poll and the decoder -/

/-- R0 is cleared, and an accumulator that is at its limit starts over together with Count. -/
def readied (p : Processor σ) : Processor σ := startOver (p.onRegisters Registers.clearZero)

theorem read_readied (p : Processor σ) (x : Register) :
    (readied p).registers.read x =
      if x = .r0 ∨ x = .cop0 (Fin.ofNat 32 Cop0.count) ∧ accumulatorLimit ≤ p.accumulator then 0
      else p.registers.read x := by
  have hstart : (readied p).registers = if accumulatorLimit ≤ p.accumulator then
      p.registers.clearZero.setCop0 Cop0.count 0 else p.registers.clearZero := by
    change (startOver _).registers = _
    unfold startOver
    exact apply_ite Processor.registers _ _ _
  rw [hstart]
  by_cases hlimit : accumulatorLimit ≤ p.accumulator
  · rw [if_pos hlimit]
    by_cases hcount : x = .cop0 (Fin.ofNat 32 Cop0.count)
    · rw [if_pos (.inr ⟨hcount, hlimit⟩), hcount, Registers.read_setCop0_self]
    · rw [Registers.read_setCop0_of_ne hcount, Registers.read_clearZero_eq]
      simp only [hcount, false_and, or_false]
  · rw [if_neg hlimit, Registers.read_clearZero_eq]
    simp only [hlimit, and_false, or_false]

theorem wired_readied (p : Processor σ) :
    (readied p).registers.cop0 Cop0.wired = p.registers.cop0 Cop0.wired := by
  have hzero : Register.cop0 (Fin.ofNat 32 Cop0.wired) ≠ .r0 := by decide
  have hcount : Register.cop0 (Fin.ofNat 32 Cop0.wired) ≠ .cop0 (Fin.ofNat 32 Cop0.count) := by
    decide
  exact (read_readied p (.cop0 (Fin.ofNat 32 Cop0.wired))).trans
    (if_neg (not_or.mpr ⟨hzero, fun h => hcount h.1⟩))

/-! ## One after the other -/

theorem onRig_ok_iff {x : EStateM Fault (Rig σ) α} {p q : Processor σ} {a : α} :
    onRig x p = .ok a q ↔ ∃ r, x p.toRig = .ok a r ∧ q = ⟨r, p.accumulator⟩ := by
  obtain ⟨r, accumulator⟩ := p
  cases hx : x r with
  | ok a' r' =>
    rw [onRig_of_ok hx]
    constructor
    · rintro ⟨⟩
      exact ⟨r', rfl, rfl⟩
    · rintro ⟨_, ⟨⟩, rfl⟩
      rfl
  | error e r' =>
    rw [onRig_of_error hx]
    simp

theorem decodeAndExecute_ok_iff {request : UInt32 × Bool} {f : InFlight ι} {r r' : Rig σ} :
    decodeAndExecute hw request r = .ok f r' ↔
      ∃ decoded, Rig.call (hw.decode request.1 { kernel := true, delaySlot := request.2 }) r =
          .ok f.instruction decoded ∧
        f.wired = decoded.machine.registers.cop0 Cop0.wired ∧
        Rig.call (Hook.withoutWaiting (hw.execute f.instruction)) decoded = .ok () r' := by
  obtain ⟨instruction, wired⟩ := f
  unfold decodeAndExecute
  constructor
  · intro h
    obtain ⟨i, decoded, hdecode, h⟩ := bind_ok_iff.mp h
    rw [bind_of_ok (get_apply _)] at h
    obtain ⟨_, executed, hexecute, h⟩ := bind_ok_iff.mp h
    cases h
    exact ⟨decoded, hdecode, rfl, hexecute⟩
  · rintro ⟨decoded, hdecode, rfl, hexecute⟩
    rw [bind_of_ok hdecode, bind_of_ok (get_apply _)]
    exact bind_ok_iff.mpr ⟨(), r', hexecute, rfl⟩

theorem Call.execution_ok_iff {c : Call} {p q : Processor σ} {f : InFlight ι} :
    c.execution hw p = .ok f q ↔
      ∃ request polled decoded executed, c.fetchAndPoll hw p.toRig = .ok request polled ∧
        Rig.call (hw.decode request.1 { kernel := true, delaySlot := request.2 })
          (readied ⟨polled, p.accumulator⟩).toRig = .ok f.instruction decoded ∧
        f.wired = decoded.machine.registers.cop0 Cop0.wired ∧
        Rig.call (Hook.withoutWaiting (hw.execute f.instruction)) decoded = .ok () executed ∧
        q = ⟨executed, (readied ⟨polled, p.accumulator⟩).accumulator⟩ := by
  rw [Call.execution_eq, bind_ok_iff]
  constructor
  · rintro ⟨request, p₁, hpoll, h⟩
    obtain ⟨polled, hpolled, rfl⟩ := onRig_ok_iff.mp hpoll
    rw [bind_of_ok (modify_apply _ _), bind_of_ok (modify_apply _ _)] at h
    obtain ⟨executed, hrest, rfl⟩ := onRig_ok_iff.mp h
    obtain ⟨decoded, hdecode, hwired, hexecute⟩ := decodeAndExecute_ok_iff.mp hrest
    exact ⟨request, polled, decoded, executed, hpolled, hdecode, hwired, hexecute, rfl⟩
  · rintro ⟨request, polled, decoded, executed, hpolled, hdecode, hwired, hexecute, rfl⟩
    refine ⟨request, _, onRig_ok_iff.mpr ⟨polled, hpolled, rfl⟩, ?_⟩
    rw [bind_of_ok (modify_apply _ _), bind_of_ok (modify_apply _ _)]
    exact onRig_ok_iff.mpr
      ⟨executed, decodeAndExecute_ok_iff.mpr ⟨decoded, hdecode, hwired, hexecute⟩, rfl⟩

/-! ## A step from stage to stage -/

def complete (hw : Hardware σ ι) (f : InFlight ι) : Action σ Unit := do
  call (Hook.withoutWaiting (hw.execute f.instruction))
  retire hw f

def decodeAndComplete (hw : Hardware σ ι) (opcode : UInt32) (delaySlot : Bool) :
    Action σ Unit := do
  let instruction ← call (hw.decode opcode { kernel := true, delaySlot })
  complete hw { instruction, wired := (← get).registers.cop0 Cop0.wired }

theorem interpret_stages (hw : Hardware σ ι) (opcode : UInt32) (delaySlot : Bool) :
    interpret hw opcode delaySlot = (do
      call (hw.poll delaySlot)
      modify readied
      decodeAndComplete hw opcode delaySlot) := by
  unfold interpret dispatch
  simp only [bind_assoc, pure_bind]
  rfl

/-- A step that comes to the end of its execution, and what each of its stages leaves. -/
structure Stages (hw : Hardware σ ι) (p : Processor σ) where
  opcode : UInt32
  instruction : ι
  fetched : Processor σ
  polled : Processor σ
  decoded : Processor σ
  executed : Processor σ
  fetch : call (hw.fetch p.registers.pc.toUInt32) p = .ok opcode fetched
  poll : call (hw.poll false) fetched = .ok () polled
  decode : call (hw.decode opcode ⟨true, false⟩) (readied polled) = .ok instruction decoded
  execute : call (Hook.withoutWaiting (hw.execute instruction)) decoded = .ok () executed

variable {p q : Processor σ}

def Stages.inFlight (s : Stages hw p) : InFlight ι :=
  ⟨s.instruction, s.decoded.registers.cop0 Cop0.wired⟩

theorem exists_stages (h : step hw p = .ok () q) :
    ∃ s : Stages hw p, retire hw s.inFlight s.executed = .ok () q := by
  obtain ⟨opcode, fetched, hfetch, h⟩ := bind_ok_iff.mp h
  rw [interpret_stages] at h
  obtain ⟨_, polled, hpoll, h⟩ := bind_ok_iff.mp h
  rw [bind_of_ok (modify_apply _ _)] at h
  obtain ⟨i, decoded, hdecode, h⟩ := bind_ok_iff.mp h
  rw [bind_of_ok (get_apply _)] at h
  obtain ⟨_, executed, hexecute, hretire⟩ := bind_ok_iff.mp h
  exact ⟨⟨opcode, i, fetched, polled, decoded, executed, hfetch, hpoll, hdecode, hexecute⟩, hretire⟩

theorem sameCounts_of_call_ok {h : Hook σ α} {a : α} (hc : call h p = .ok a q) :
    Rig.SameCounts p.toRig q.toRig := by
  have hcounts := Rig.keeps_sameCounts_call p.toRig h p.toRig ⟨rfl, rfl⟩
  rwa [← toRig_call, hc] at hcounts

theorem sameCounts_readied (p : Processor σ) : Rig.SameCounts p.toRig (readied p).toRig := by
  unfold readied startOver
  split <;> exact ⟨rfl, rfl⟩

theorem Stages.sameCounts (s : Stages hw p) : Rig.SameCounts p.toRig s.executed.toRig :=
  (sameCounts_of_call_ok s.fetch).trans <| (sameCounts_of_call_ok s.poll).trans <|
    (sameCounts_readied s.polled).trans <| (sameCounts_of_call_ok s.decode).trans <|
      sameCounts_of_call_ok s.execute

theorem random_of_retire {s : Stages hw p} (h : retire hw s.inFlight s.executed = .ok () q) :
    q.registers.cop0 Cop0.random = nextRandom (s.executed.registers.cop0 Cop0.random)
      (s.decoded.registers.cop0 Cop0.wired) (s.executed.registers.cop0 Cop0.wired) := by
  obtain ⟨-, rfl⟩ := retire_ok_iff.mp h
  exact cop0_random_updateTimers _ _ _

end Processor

end ConsoleCore
