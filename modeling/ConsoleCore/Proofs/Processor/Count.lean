import ConsoleCore.Proofs.Processor.Calls
import ConsoleCore.Scripted.Board

/-!
# Count

Count is half of the accumulator, whatever anybody writes to it, and the accumulator starts over
before it can grow past its limit by more than one instruction.
-/

namespace ConsoleCore.Processor

variable {σ ι α : Type} {hw : Hardware σ ι}

/-! ## The accumulator when an instruction is charged -/

theorem accumulator_startOver_le (p : Processor σ) :
    p.startOver.accumulator.toNat ≤ 0xfffffffe := by
  unfold startOver
  split
  · simp
  · rename_i h
    have hlimit : accumulatorLimit.toNat = 0xffffffff := rfl
    rw [ge_iff_le, UInt64.le_iff_toNat_le] at h
    omega

theorem accumulator_of_call_ok {h : Hook σ α} {p q : Processor σ} {a : α}
    (hc : call h p = .ok a q) : q.accumulator = p.accumulator := by
  have hq := accumulator_call h p
  rwa [hc] at hq

theorem accumulator_le_of_dispatch {opcode : UInt32} {delaySlot : Bool} {f : InFlight ι}
    {p q : Processor σ} (h : dispatch hw opcode delaySlot p = .ok f q) :
    q.accumulator.toNat ≤ 0xfffffffe := by
  unfold dispatch at h
  obtain ⟨_, p₁, -, h⟩ := bind_ok_iff.mp h
  rw [bind_of_ok (modify_apply _ _), bind_of_ok (modify_apply _ _)] at h
  obtain ⟨i, p₂, hdecode, h⟩ := bind_ok_iff.mp h
  rw [bind_of_ok (get_apply _)] at h
  cases h
  rw [accumulator_of_call_ok hdecode]
  exact accumulator_startOver_le _

theorem accumulator_le_of_execution {c : Call} {f : InFlight ι} {p q : Processor σ}
    (h : c.execution hw p = .ok f q) : q.accumulator.toNat ≤ 0xfffffffe := by
  have hexecute : ∀ {opcode delaySlot r}, execute hw opcode delaySlot r = .ok f q →
      q.accumulator.toNat ≤ 0xfffffffe := by
    intro opcode delaySlot r h
    obtain ⟨g, p₁, hdispatch, h⟩ := bind_ok_iff.mp h
    obtain ⟨_, p₂, hexec, h⟩ := bind_ok_iff.mp h
    cases h
    rw [accumulator_of_call_ok hexec]
    exact accumulator_le_of_dispatch hdispatch
  cases c with
  | step =>
    obtain ⟨_, _, -, h⟩ := bind_ok_iff.mp h
    exact hexecute h
  | interpret opcode delaySlot => exact hexecute h

/-! ## Room for the cost -/

theorem hasRoom_of_execution {c : Call} {f : InFlight ι} {p q : Processor σ}
    (h : c.execution hw p = .ok f q) (hcost : costOf hw f q ≤ 0xffffffff00000001) :
    HasRoom hw f q := by
  have hacc := accumulator_le_of_execution h
  have hmax : (0xffffffff00000001 : UInt64).toNat = 0xffffffff00000001 := rfl
  rw [UInt64.le_iff_toNat_le] at hcost
  unfold HasRoom UInt64.size
  omega

theorem startOver_has_room {p : Processor σ} {cost : UInt64}
    (h : p.accumulator = 0 ∨ cost ≤ p.accumulator) :
    p.startOver.accumulator.toNat + cost.toNat < UInt64.size := by
  have hlimit : accumulatorLimit.toNat = 0xffffffff := rfl
  have hcost := cost.toNat_lt
  unfold startOver UInt64.size
  split
  · simpa using hcost
  · rename_i hbelow
    rw [ge_iff_le, UInt64.le_iff_toNat_le] at hbelow
    rcases h with h | h
    · rw [h]
      simpa using hcost
    · rw [UInt64.le_iff_toNat_le] at h
      omega

theorem accumulator_retired_toNat {f : InFlight ι} {p : Processor σ} (h : HasRoom hw f p) :
    (retired hw f p).accumulator.toNat = p.accumulator.toNat + (costOf hw f p).toNat := by
  rw [accumulator_retired, UInt64.toNat_add]
  exact Nat.mod_eq_of_lt h

theorem count_retired (f : InFlight ι) (p : Processor σ) :
    (retired hw f p).registers.cop0 Cop0.count = (retired hw f p).accumulator >>> 1 := by
  rw [registers_retired, cop0_count_updateTimers, accumulator_retired]

theorem overflow_of_no_room {c : Call} {f : InFlight ι} {p q : Processor σ}
    (h : c.execution hw p = .ok f q) (hroom : ¬ HasRoom hw f q) :
    c.perform hw p = .error .accumulatorOverflow (charged hw f q) := by
  rw [Call.perform_eq, bind_of_ok h, retire_eq, if_neg hroom]

theorem count_lt_of_cost_le {f : InFlight ι} {p : Processor σ}
    (hacc : p.accumulator.toNat ≤ 0xfffffffe) (hcost : costOf hw f p ≤ 0x100000001) :
    ((retired hw f p).registers.cop0 Cop0.count).toNat < UInt32.size := by
  have hmax : (0x100000001 : UInt64).toNat = 0x100000001 := rfl
  rw [UInt64.le_iff_toNat_le, hmax] at hcost
  have hroom : HasRoom hw f p := by
    unfold HasRoom UInt64.size
    omega
  have hone : (1 : UInt64).toNat % 64 = 1 := rfl
  rw [count_retired, UInt64.toNat_shiftRight, accumulator_retired_toNat hroom, hone,
    Nat.shiftRight_eq_div_pow]
  unfold UInt32.size
  omega

/-! ## The bounds -/

def overflowingBoard : Processor Scripted.Board where
  hardware := { costs := [(1, 0xfffffffe), (2, 0xffffffff00000002)] }
  machine := {}

/-- After every completed instruction Count is half of the accumulator, which has grown past its
limit by less than the cost of that instruction. -/
theorem count_and_accumulator_bounds :
    (∀ {σ ι : Type} (hw : Hardware σ ι) (p : Processor σ) (us : List (Use σ)) (c : Call),
      (∀ q, c.perform hw (after hw p us) = .ok () q →
        ∃ f r, c.execution hw (after hw p us) = .ok f r ∧
          q.registers.cop0 Cop0.count = q.accumulator >>> 1 ∧
          q.accumulator.toNat ≤ 0xfffffffe + (costOf hw f r).toNat ∧
          (costOf hw f r ≤ 0x100000001 → (q.registers.cop0 Cop0.count).toNat < UInt32.size)) ∧
      (∀ f r, c.execution hw (after hw p us) = .ok f r →
        costOf hw f r ≤ 0xffffffff00000001 →
        ∃ q, c.perform hw (after hw p us) = .ok () q)) ∧
    ∃ (p : Processor Scripted.Board) (cs : List Call) (c : Call) (f : _) (r q : _),
      let s := after Scripted.Board.hardware p (cs.map .call)
      p.accumulator = 0 ∧ c.execution Scripted.Board.hardware s = .ok f r ∧
        costOf Scripted.Board.hardware f r = 0xffffffff00000002 ∧
        c.perform Scripted.Board.hardware s = .error .accumulatorOverflow q := by
  refine ⟨fun hw p us c => ⟨fun q hq => ?_, fun f r hexec hcost => ?_⟩, ?_⟩
  · obtain ⟨f, r, hexec, hroom, rfl⟩ := Call.perform_ok_iff.mp hq
    have hacc := accumulator_le_of_execution hexec
    refine ⟨f, r, hexec, count_retired f r, ?_, count_lt_of_cost_le hacc⟩
    rw [accumulator_retired_toNat hroom]
    omega
  · exact ⟨_, Call.perform_ok_iff.mpr ⟨f, r, hexec, hasRoom_of_execution hexec hcost, rfl⟩⟩
  · let s := after Scripted.Board.hardware overflowingBoard [.call (.interpret 0x01000000 false)]
    let c : Call := .interpret 0x02000000 false
    have hrun : (match c.execution Scripted.Board.hardware s with
        | .ok f r => decide (costOf Scripted.Board.hardware f r = 0xffffffff00000002 ∧
            ¬ HasRoom Scripted.Board.hardware f r)
        | .error _ _ => false) = true := by decide +kernel
    cases hexec : c.execution Scripted.Board.hardware s with
    | ok f r =>
      simp only [hexec, decide_eq_true_eq] at hrun
      exact ⟨overflowingBoard, [.interpret 0x01000000 false], c, f, r, _, rfl, hexec, hrun.1,
        overflow_of_no_room hexec hrun.2⟩
    | error e r => simp [hexec] at hrun

/-- Count was written by the caller, reset, and written by the instruction itself, which has the
highest cost that leaves it 32 bits. -/
theorem count_is_highest_after_reset :
    let hw := Scripted.Board.hardware
    let p : Processor Scripted.Board :=
      { hardware := { costs := [(1, 0xfffffffe), (3, 0x100000001)] }, machine := {} }
    let us : List (Use Scripted.Board) := [
      .call (.interpret 0x01000000 false),
      .registers (.write (.cop0 Cop0.count 0x123456789abcdef0)),
      .registers .reset]
    let c : Call := .interpret 0x03090007 true
    let q := endState (c.perform hw (after hw p us))
    c.perform hw (after hw p us) = .ok () q ∧ q.registers.cop0 Cop0.count = 0xffffffff ∧
      ∃ f r, c.execution hw (after hw p us) = .ok f r ∧
        q.registers.cop0 Cop0.count = q.accumulator >>> 1 ∧
        q.accumulator.toNat ≤ 0xfffffffe + (costOf hw f r).toNat := by
  intro hw p us c q
  have hq : c.perform hw (after hw p us) = .ok () q := eq_ok_of_completes (by decide +kernel)
  obtain ⟨f, r, hexec, hcount, hacc, -⟩ := (count_and_accumulator_bounds.1 hw p us c).1 q hq
  exact ⟨hq, by decide +kernel, f, r, hexec, hcount, hacc⟩

end ConsoleCore.Processor
