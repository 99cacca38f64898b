import Mathlib.Algebra.Order.Floor.Div
import ConsoleCore.Proofs.Period
import ConsoleCore.Proofs.Processor.Count

/-!
# The time base under a uniform cost

Where every instruction costs the same, the accumulator goes up in equal steps, and starts over
after as many of them as it takes to fill it up to its limit. Only completed instructions count.
-/

namespace ConsoleCore.Processor

variable {σ ι α : Type} {hw : Hardware σ ι}

/-! ## What an instruction finds in the accumulator -/

def carried (p : Processor σ) : Nat := p.startOver.accumulator.toNat

theorem carried_eq (p : Processor σ) :
    carried p = if 0xffffffff ≤ p.accumulator.toNat then 0 else p.accumulator.toNat := by
  have hlimit : p.accumulator ≥ accumulatorLimit ↔ 0xffffffff ≤ p.accumulator.toNat :=
    UInt64.le_iff_toNat_le
  unfold carried startOver
  simp only [hlimit]
  split <;> rfl

theorem carried_congr {p q : Processor σ} (h : q.accumulator = p.accumulator) :
    carried q = carried p := by
  rw [carried_eq, carried_eq, h]

theorem carried_startOver (p : Processor σ) : carried p.startOver = carried p := by
  have hle := accumulator_startOver_le p
  rw [carried_eq p.startOver, if_neg (by omega)]
  rfl

theorem cycles_startOver (p : Processor σ) : p.startOver.machine.cycles = p.machine.cycles := by
  unfold startOver
  split <;> rfl

/-! ## Steps and rounds -/

def roundLength (cost : UInt64) : Nat := 0xffffffff ⌈/⌉ cost.toNat

theorem roundLength_le_iff {cost : UInt64} (hcost : 1 ≤ cost) (n : Nat) :
    roundLength cost ≤ n ↔ 0xffffffff ≤ cost.toNat * n :=
  ceilDiv_le_iff_le_mul (UInt64.le_iff_toNat_le.mp hcost)

/-- `n` instructions have been completed, since a moment when the machine had counted `start`. -/
structure InPhase (cost start : UInt64) (n : Nat) (p : Processor σ) : Prop where
  carried : carried p = cost.toNat * (n % roundLength cost)
  cycles : p.machine.cycles.toNat = (start.toNat + n * cost.toNat) % UInt64.size

variable {cost start : UInt64} {n : Nat} {p q r : Processor σ} {c : Call} {f : InFlight ι}

theorem InPhase.congr (h : InPhase cost start n p) (haccumulator : q.accumulator = p.accumulator)
    (hcycles : q.machine.cycles = p.machine.cycles) : InPhase cost start n q where
  carried := (carried_congr haccumulator).trans h.carried
  cycles := by rw [hcycles, h.cycles]

theorem keeps_inPhase_call (h : Hook σ α) : Keeps (InPhase cost start n) (call h) := by
  intro p hp
  refine hp.congr (accumulator_call h p) ?_
  rw [toRig_call, Rig.cycles_call]

/-- Up to its bookkeeping, an instruction lets the accumulator start over at most. -/
theorem stagesKeep_inPhase : StagesKeep hw (InPhase cost start n) where
  fetch _ := keeps_inPhase_call _
  poll _ := keeps_inPhase_call _
  clearZero _ hp := hp.congr rfl rfl
  startOver p hp := by
    refine ⟨(carried_startOver p).trans hp.carried, ?_⟩
    rw [cycles_startOver, hp.cycles]
  decode _ _ := keeps_inPhase_call _
  execute _ := keeps_inPhase_call _

/-! ## One instruction -/

theorem InPhase.accumulator_eq (h : InPhase cost start n p) (hexec : c.execution hw p = .ok f r) :
    r.accumulator.toNat = cost.toNat * (n % roundLength cost) := by
  have hr := (stagesKeep_inPhase.execution c).of_ok h hexec
  have hle := accumulator_le_of_execution hexec
  rw [← hr.carried, carried_eq, if_neg (by omega)]

theorem rest_lt_limit (hcost : 1 ≤ cost) (n : Nat) :
    cost.toNat * (n % roundLength cost) < 0xffffffff := by
  have hround : ¬ roundLength cost ≤ 0 := by
    rw [roundLength_le_iff hcost]
    omega
  have hlt : n % roundLength cost < roundLength cost := Nat.mod_lt _ (by omega)
  exact Nat.not_le.mp fun h => Nat.not_le.mpr hlt ((roundLength_le_iff hcost _).mpr h)

theorem InPhase.hasRoom (h : InPhase cost start n p) (hcost : 1 ≤ cost)
    (hexec : c.execution hw p = .ok f r) (hf : costOf hw f r = cost) : HasRoom hw f r := by
  have hacc := h.accumulator_eq hexec
  have hlimit := rest_lt_limit hcost n
  have hword := cost.toNat_lt
  unfold HasRoom UInt64.size
  rw [hf, hacc]
  rcases Nat.eq_zero_or_pos (n % roundLength cost) with hzero | hpos
  · rw [hzero]
    omega
  · have hle : cost.toNat ≤ cost.toNat * (n % roundLength cost) := Nat.le_mul_of_pos_right _ hpos
    omega

theorem InPhase.accumulator_retired (h : InPhase cost start n p) (hcost : 1 ≤ cost)
    (hexec : c.execution hw p = .ok f r) (hf : costOf hw f r = cost) :
    (retired hw f r).accumulator.toNat = cost.toNat * (n % roundLength cost + 1) := by
  rw [accumulator_retired_toNat (h.hasRoom hcost hexec hf), hf, h.accumulator_eq hexec,
    Nat.mul_add_one]

theorem InPhase.retired (h : InPhase cost start n p) (hcost : 1 ≤ cost)
    (hexec : c.execution hw p = .ok f r) (hf : costOf hw f r = cost) :
    InPhase cost start (n + 1) (retired hw f r) where
  carried := by
    have hround : 0 < roundLength cost := by
      have hlimit := roundLength_le_iff hcost 0
      omega
    have hlt : n % roundLength cost < roundLength cost := Nat.mod_lt _ hround
    have hfull : 0xffffffff ≤ cost.toNat * (n % roundLength cost + 1) ↔
        n % roundLength cost + 1 = roundLength cost := by
      rw [← roundLength_le_iff hcost]
      omega
    rw [carried_eq, h.accumulator_retired hcost hexec hf, succ_mod hround]
    simp only [hfull]
    split <;> simp
  cycles := by
    have hr := (stagesKeep_inPhase.execution c).of_ok h hexec
    change (r.machine.cycles + costOf hw f r).toNat = _
    rw [hf, UInt64.toNat_add, hr.cycles]
    unfold UInt64.size
    rw [Nat.mod_add_mod, Nat.add_mul, Nat.one_mul, Nat.add_assoc]

/-! ## Whole runs -/

def Use.cost? (hw : Hardware σ ι) (p : Processor σ) : Use σ → Option UInt64
  | .call c =>
    match c.execution hw p with
    | .ok f r => some (costOf hw f r)
    | .error _ _ => none
  | _ => none

def executedCosts (hw : Hardware σ ι) (p : Processor σ) : List (Use σ) → List UInt64
  | [] => []
  | u :: us => (u.cost? hw p).toList ++ executedCosts hw (afterUse hw p u) us

def Use.completes (hw : Hardware σ ι) (p : Processor σ) : Use σ → Bool
  | .call c => ConsoleCore.completes (c.perform hw p)
  | _ => false

def completions (hw : Hardware σ ι) (p : Processor σ) : List (Use σ) → Nat
  | [] => 0
  | u :: us => (u.completes hw p).toNat + completions hw (afterUse hw p u) us

theorem cost?_call (hexec : c.execution hw p = .ok f r) :
    Use.cost? hw p (.call c) = some (costOf hw f r) := by
  simp only [Use.cost?, hexec]

theorem InPhase.afterUse (h : InPhase cost start n p) (hcost : 1 ≤ cost) {u : Use σ}
    (hu : ∀ x ∈ u.cost? hw p, x = cost) :
    InPhase cost start (n + (u.completes hw p).toNat) (afterUse hw p u) := by
  cases u with
  | call c =>
    cases hexec : c.execution hw p with
    | ok f r =>
      have hf : costOf hw f r = cost := hu _ (cost?_call hexec)
      have hperform := Call.perform_ok_iff.mpr ⟨f, r, hexec, h.hasRoom hcost hexec hf, rfl⟩
      simp only [Use.completes, Processor.afterUse, hperform]
      exact h.retired hcost hexec hf
    | error e r =>
      have hperform : c.perform hw p = .error e r := by
        rw [Call.perform_eq, bind_of_error hexec]
      simp only [Use.completes, Processor.afterUse, hperform]
      exact (stagesKeep_inPhase.execution c).of_error h hexec
  | registers op => exact h.congr rfl rfl
  | hardware g => exact h.congr rfl rfl

theorem InPhase.after (h : InPhase cost start n p) (hcost : 1 ≤ cost) {us : List (Use σ)}
    (hus : ∀ x ∈ executedCosts hw p us, x = cost) :
    InPhase cost start (n + completions hw p us) (after hw p us) := by
  induction us generalizing n p with
  | nil => exact h
  | cons u us ih =>
    simp only [executedCosts, List.mem_append, Option.mem_toList] at hus
    have hfirst := h.afterUse hcost (u := u) fun x hx => hus x (.inl hx)
    have hrest := ih hfirst fun x hx => hus x (.inr hx)
    rwa [Nat.add_assoc] at hrest

theorem executedCosts_append (hw : Hardware σ ι) (p : Processor σ) (us vs : List (Use σ)) :
    executedCosts hw p (us ++ vs) =
      executedCosts hw p us ++ executedCosts hw (after hw p us) vs := by
  induction us generalizing p with
  | nil => rfl
  | cons u us ih =>
    rw [List.cons_append, executedCosts, ih, executedCosts, List.append_assoc]
    rfl

/-- Where every executed instruction costs the same, the accumulator starts over after `period` of
them, and none of them faults over its cost. -/
theorem uniform_cost_sets_time_base (hw : Hardware σ ι) (cost : UInt64) (hcost : 1 ≤ cost)
    (p : Processor σ) (hnew : p.accumulator = 0) (us : List (Use σ)) (c : Call)
    (huniform : ∀ x ∈ executedCosts hw p (us ++ [.call c]), x = cost) :
    let s := after hw p us
    let n := completions hw p us + 1
    let period := 0xffffffff ⌈/⌉ cost.toNat
    (∀ f r, c.execution hw s = .ok f r → ∃ q, c.perform hw s = .ok () q) ∧
    ∀ q, c.perform hw s = .ok () q →
      q.accumulator.toNat = cost.toNat * ((n - 1) % period + 1) ∧
      (q.registers.cop0 Cop0.count).toNat = q.accumulator.toNat / 2 ∧
      q.machine.cycles.toNat = (p.machine.cycles.toNat + n * cost.toNat) % UInt64.size := by
  intro s n period
  simp only [executedCosts_append, List.mem_append] at huniform
  have hstart : InPhase cost p.machine.cycles 0 p := by
    refine ⟨?_, ?_⟩
    · rw [carried_eq, hnew, Nat.zero_mod]
      rfl
    · have hword := p.machine.cycles.toNat_lt
      unfold UInt64.size
      omega
  have hs : InPhase cost p.machine.cycles (0 + completions hw p us) s :=
    hstart.after hcost fun x hx => huniform x (.inl hx)
  rw [Nat.zero_add] at hs
  -- The last call is among the instructions that cost the same.
  have hlast : ∀ f r, c.execution hw s = .ok f r → costOf hw f r = cost := by
    intro f r hexec
    apply huniform _ (.inr _)
    simp only [executedCosts, cost?_call hexec, Option.toList_some, List.append_nil,
      List.mem_singleton, s]
  refine ⟨fun f r hexec => ?_, fun q hq => ?_⟩
  · have hroom := hs.hasRoom hcost hexec (hlast f r hexec)
    exact ⟨_, Call.perform_ok_iff.mpr ⟨f, r, hexec, hroom, rfl⟩⟩
  · obtain ⟨f, r, hexec, -, rfl⟩ := Call.perform_ok_iff.mp hq
    have hf := hlast f r hexec
    refine ⟨hs.accumulator_retired hcost hexec hf, ?_, (hs.retired hcost hexec hf).cycles⟩
    rw [count_retired, UInt64.toNat_shiftRight, Nat.shiftRight_eq_div_pow]
    rfl

/-- Two instructions fill the accumulator. One that panics does not count, and both the interrupt
controller and the last instruction write to Count. -/
theorem time_base_at_half_limit :
    let hw := Scripted.Board.hardware
    let p : Processor Scripted.Board := {
      hardware := { cost := 0x80000000, polls := [(3, [.cop0 Cop0.count 0xdead])] }
      machine := {} }
    let us : List (Use Scripted.Board) := [
      .call (.interpret 0 false), .call (.interpret 0 false),
      .call (.interpret 0xf2000000 false), .registers .reset, .call (.interpret 0 true)]
    let c : Call := .interpret 0x03090007 false
    let q := endState (c.perform hw (after hw p us))
    p.accumulator = 0 ∧ (∀ x ∈ executedCosts hw p (us ++ [.call c]), x = 0x80000000) ∧
      completions hw p us + 1 = 4 ∧ c.perform hw (after hw p us) = .ok () q ∧
      q.accumulator.toNat = 0x100000000 ∧ (q.registers.cop0 Cop0.count).toNat = 0x80000000 ∧
      q.machine.cycles.toNat = 0x200000000 := by
  intro hw p us c q
  have hcosts : (executedCosts hw p (us ++ [.call c])).all (· = 0x80000000) = true := by
    decide +kernel
  have huniform : ∀ x ∈ executedCosts hw p (us ++ [.call c]), x = 0x80000000 :=
    fun x hx => of_decide_eq_true (List.all_eq_true.mp hcosts x hx)
  have hcount : completions hw p us = 3 := by decide +kernel
  have hq : c.perform hw (after hw p us) = .ok () q := eq_ok_of_completes (by decide +kernel)
  obtain ⟨hacc, hhalf, hcycles⟩ :=
    (uniform_cost_sets_time_base hw 0x80000000 (by decide) p rfl us c huniform).2 q hq
  simp only [hcount] at hacc hcycles
  have haccumulator : q.accumulator.toNat = 0x100000000 := hacc.trans (by decide)
  rw [haccumulator] at hhalf
  exact ⟨rfl, huniform, by rw [hcount], hq, haccumulator, hhalf, hcycles.trans (by decide)⟩

end ConsoleCore.Processor
