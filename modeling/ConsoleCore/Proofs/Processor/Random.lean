import ConsoleCore.Proofs.Processor.Calls
import ConsoleCore.Scripted.Board
import ConsoleCore.TestBoard

/-!
# Random

Random counts down to Wired, instruction by instruction. As long as nobody else writes it, it stays
between Wired and its upper bound, wherever and whenever Wired is written. From zero, where only
others can bring it, it counts down to the top of its 64 bits.
-/

namespace ConsoleCore.Processor

variable {σ ι : Type} {hw : Hardware σ ι}

/-! ## One countdown -/

theorem nextRandom_toNat {random : UInt64} (h : 1 ≤ random) (before wired : UInt64) :
    (nextRandom random before wired).toNat =
      if random.toNat - 1 < wired.toNat ∨ random.toNat = 1 ∨ wired ≠ before then 0x1f
      else random.toNat - 1 := by
  have hone : 1 ≤ random.toNat := UInt64.le_iff_toNat_le.mp h
  have hnext : (random - 1).toNat = random.toNat - 1 := UInt64.toNat_sub_of_le _ _ h
  have hlt : random - 1 < wired ↔ random.toNat - 1 < wired.toNat := by
    rw [UInt64.lt_iff_toNat_lt, hnext]
  have hzero : random - 1 = 0 ↔ random.toNat = 1 := by
    rw [← UInt64.toNat_inj, hnext, UInt64.toNat_zero]
    omega
  simp only [nextRandom, hlt, hzero]
  split
  · rfl
  · exact hnext

theorem nextRandom_zero (before wired : UInt64) :
    nextRandom 0 before wired = if wired ≠ before then Cop0.randomMax else 0xffffffffffffffff := by
  have hnext : ¬ (0 : UInt64) - 1 < wired := by
    have htop : ((0 : UInt64) - 1).toNat = 0xffffffffffffffff := rfl
    have hwired := wired.toNat_lt
    rw [UInt64.lt_iff_toNat_lt]
    omega
  have hne : (0 : UInt64) - 1 ≠ 0 := by decide
  unfold nextRandom
  simp only [hnext, hne, false_or]
  rfl

theorem nextRandom_self (random wired : UInt64) :
    nextRandom random wired wired =
      if random - 1 = 0 ∨ random - 1 < wired then 0x1f else random - 1 := by
  have hreload : (random - 1 < wired ∨ random - 1 = 0 ∨ wired ≠ wired) ↔
      (random - 1 = 0 ∨ random - 1 < wired) := by
    rw [ne_eq, eq_self, not_true_eq_false, or_false, or_comm]
  simp only [nextRandom, hreload]
  rfl

theorem nextRandom_of_ne {wiredBefore wired : UInt64} (h : wired ≠ wiredBefore)
    (random : UInt64) : nextRandom random wiredBefore wired = 0x1f :=
  if_pos (.inr (.inr h))

theorem nextRandom_cases (random before wired : UInt64) :
    (random = 0 ∧ wired = before ∧ nextRandom random before wired = 0xffffffffffffffff) ∨
      (¬ (random = 0 ∧ wired = before) ∧ (nextRandom random before wired = 0x1f ∨
        (nextRandom random before wired).toNat + 1 = random.toNat)) := by
  by_cases hzero : random = 0
  · subst hzero
    rw [nextRandom_zero]
    by_cases hwired : wired = before
    · exact .inl ⟨rfl, hwired, if_neg (not_not_intro hwired)⟩
    · exact .inr ⟨fun h => hwired h.2, .inl (if_pos hwired)⟩
  · have hone : 1 ≤ random := by
      rw [← UInt64.toNat_inj, UInt64.toNat_zero] at hzero
      rw [UInt64.le_iff_toNat_le, UInt64.toNat_one]
      omega
    refine .inr ⟨fun h => hzero h.1, ?_⟩
    have hnext := nextRandom_toNat hone before wired
    split at hnext
    · exact .inl (UInt64.toNat_inj.mp hnext)
    · right
      rw [UInt64.le_iff_toNat_le, UInt64.toNat_one] at hone
      omega

/-! ## The range of Random -/

/-- The values that Random has between two instructions. -/
def RandomInRange (random : UInt64) : Prop := 1 ≤ random ∧ random ≤ Cop0.randomMax

def RandomFits (r : Registers) : Prop :=
  RandomInRange (r.cop0 Cop0.random) ∧
    (r.cop0 Cop0.wired ≤ Cop0.randomMax → r.cop0 Cop0.wired ≤ r.cop0 Cop0.random) ∧
    (Cop0.randomMax < r.cop0 Cop0.wired → r.cop0 Cop0.random = Cop0.randomMax)

theorem randomFits_updateTimers {accumulator before : UInt64} {r : Registers}
    (h : RandomInRange (r.cop0 Cop0.random)) : RandomFits (updateTimers accumulator before r) := by
  obtain ⟨hone, hmax⟩ := h
  have hnext := nextRandom_toNat hone before (r.cop0 Cop0.wired)
  unfold RandomFits RandomInRange
  rw [cop0_random_updateTimers, cop0_wired_updateTimers]
  simp only [UInt64.le_iff_toNat_le, UInt64.lt_iff_toNat_lt, ← UInt64.toNat_inj] at hone hmax ⊢
  have hbound : Cop0.randomMax.toNat = 0x1f := rfl
  have htwo : (1 : UInt64).toNat = 1 := rfl
  rw [hnext]
  split <;> omega

theorem randomInRange_atReset : RandomInRange (Registers.atReset.cop0 Cop0.random) := by
  unfold RandomInRange
  decide

/-! ## Whole runs -/

def Use.SparesRandom : Use σ → Prop
  | .registers op =>
    op = .reset ∨ ∀ r : Registers, (r.operate op).cop0 Cop0.random = r.cop0 Cop0.random
  | _ => True

theorem stagesKeep_randomInRange (hhw : hw.Leaves (·.cop0 Cop0.random)) :
    StagesKeep hw fun p => RandomInRange (p.registers.cop0 Cop0.random) :=
  Leaves.stagesKeep hhw (fun _ => rfl) (Registers.cop0_setCop0_of_ne (by decide))

theorem keeps_retire_randomInRange (f : InFlight ι) :
    Keeps (fun p => RandomInRange (p.registers.cop0 Cop0.random)) (retire hw f) := by
  intro p hp
  rw [retire_eq]
  split
  · exact (randomFits_updateTimers hp).1
  · exact hp

theorem randomFits_of_perform (hhw : hw.Leaves (·.cop0 Cop0.random)) {c : Call}
    {p q : Processor σ} (hp : RandomInRange (p.registers.cop0 Cop0.random))
    (h : c.perform hw p = .ok () q) : RandomFits q.registers := by
  obtain ⟨f, r, hexec, -, rfl⟩ := Call.perform_ok_iff.mp h
  have hr := ((stagesKeep_randomInRange hhw).execution c).of_ok hp hexec
  exact randomFits_updateTimers hr

theorem randomInRange_afterUse (hhw : hw.Leaves (·.cop0 Cop0.random)) {u : Use σ}
    (hu : u.SparesRandom) {p : Processor σ} (hp : RandomInRange (p.registers.cop0 Cop0.random)) :
    RandomInRange ((afterUse hw p u).registers.cop0 Cop0.random) := by
  cases u with
  | call c =>
    exact (stagesKeep_randomInRange hhw).perform keeps_retire_randomInRange c p hp
  | registers op =>
    change RandomInRange ((p.registers.operate op).cop0 Cop0.random)
    rcases hu with rfl | hu
    · exact randomInRange_atReset
    · rw [hu]
      exact hp
  | hardware f => exact hp

/-- From a reset on, every completed instruction leaves Random between Wired and its upper bound, or
at its upper bound if Wired is beyond that. -/
theorem random_between_wired_and_max (hhw : hw.Leaves (·.cop0 Cop0.random)) (p : Processor σ)
    (hp : p.registers = .atReset) (us : List (Use σ)) (hus : ∀ u ∈ us, u.SparesRandom)
    (c : Call) (q : Processor σ) (hc : c.perform hw (after hw p us) = .ok () q) :
    let random := q.registers.cop0 Cop0.random
    let wired := q.registers.cop0 Cop0.wired
    1 ≤ random ∧ random ≤ 0x1f ∧ (wired ≤ 0x1f → wired ≤ random) ∧
      (0x1f < wired → random = 0x1f) := by
  have hstart : RandomInRange (p.registers.cop0 Cop0.random) := by
    rw [hp]
    exact randomInRange_atReset
  have hrun : RandomInRange ((after hw p us).registers.cop0 Cop0.random) :=
    after_keeps (I := fun r => RandomInRange (r.registers.cop0 Cop0.random))
      (fun u hu _ hr => randomInRange_afterUse hhw (hus u hu) hr) hstart
  obtain ⟨⟨hone, hmax⟩, hwired, hbeyond⟩ := randomFits_of_perform hhw hrun hc
  exact ⟨hone, hmax, hwired, hbeyond⟩

theorem leaves_random_testBoard : TestBoard.hardware.Leaves (·.cop0 Cop0.random) where
  fetch address b := rfl
  poll delaySlot b := by
    obtain ⟨board, registers, powered⟩ := b
    rcases board with ⟨_, _, _ | _, _⟩ <;> rfl
  decode opcode flags b := rfl
  execute i b := by
    change (i.apply b.registers).cop0 Cop0.random = b.registers.cop0 Cop0.random
    unfold TestBoard.Instruction.apply
    split
    · exact Registers.cop0_setGpr _ _ _ _
    · split
      · exact Registers.cop0_setCop0_of_ne (by decide) _ _
      · rfl

/-- Wired is raised, and lowered by an instruction that then faults over its cost. The next one
counts down by one. -/
theorem random_fits_after_overflow :
    let p : Processor TestBoard :=
      { hardware := { cost := 0xfffffffe }, machine := { registers := .atReset } }
    let us : List (Use TestBoard) := [
      .call (.interpret (TestBoard.writeWired 20) false),
      .hardware ({ · with cost := 0xffffffffffffffff }),
      .call (.interpret (TestBoard.writeWired 5) true),
      .hardware ({ · with cost := 1 })]
    let c : Call := .interpret TestBoard.nop false
    let q := endState (c.perform TestBoard.hardware (after TestBoard.hardware p us))
    p.registers = .atReset ∧ (∀ u ∈ us, u.SparesRandom) ∧
      c.perform TestBoard.hardware (after TestBoard.hardware p us) = .ok () q ∧
      q.registers.cop0 Cop0.random = 0x1e ∧ q.registers.cop0 Cop0.wired = 5 ∧
      1 ≤ q.registers.cop0 Cop0.random ∧
      q.registers.cop0 Cop0.wired ≤ q.registers.cop0 Cop0.random := by
  intro p us c q
  have hus : ∀ u ∈ us, u.SparesRandom := by simp [us, Use.SparesRandom]
  have hc : c.perform TestBoard.hardware (after TestBoard.hardware p us) = .ok () q :=
    eq_ok_of_completes (by decide +kernel)
  obtain ⟨hone, -, hwired, -⟩ :=
    random_between_wired_and_max leaves_random_testBoard p rfl us hus c q hc
  exact ⟨rfl, hus, hc, by decide +kernel, by decide +kernel, hone, hwired (by decide +kernel)⟩

/-! ## From any value -/

/-- A completed instruction reloads Random or counts it down by one, unless it finds zero there and
has left Wired alone. Then Random wraps around. -/
theorem random_wraps_only_from_zero (hw : Hardware σ ι) (p q : Processor σ) (c : Call)
    (hc : c.perform hw p = .ok () q) :
    ∃ f r, c.execution hw p = .ok f r ∧
      let executed := r.registers.cop0 Cop0.random
      let random := q.registers.cop0 Cop0.random
      let wraps := executed = 0 ∧ r.registers.cop0 Cop0.wired = f.wired
      (¬ wraps → random = 0x1f ∨ random.toNat + 1 = executed.toNat) ∧
        (wraps → random = 0xffffffffffffffff) ∧ (executed < random ∧ 0x1f < random ↔ wraps) := by
  obtain ⟨f, r, hexec, -, rfl⟩ := Call.perform_ok_iff.mp hc
  refine ⟨f, r, hexec, ?_⟩
  intro executed random wraps
  have hrandom : random = nextRandom executed f.wired (r.registers.cop0 Cop0.wired) :=
    cop0_random_updateTimers _ _ _
  rw [hrandom]
  rcases nextRandom_cases executed f.wired (r.registers.cop0 Cop0.wired) with
    ⟨hzero, hwired, hnext⟩ | ⟨hstays, hnext⟩
  · have hwraps : wraps := ⟨hzero, hwired⟩
    rw [hnext, hzero]
    exact ⟨fun h => absurd hwraps h, fun _ => rfl, fun _ => hwraps, fun _ => by decide⟩
  · refine ⟨fun _ => hnext, fun h => absurd h hstays, fun ⟨hraised, habove⟩ => ?_,
      fun h => absurd h hstays⟩
    rw [UInt64.lt_iff_toNat_lt] at hraised habove
    have hbound : (0x1f : UInt64).toNat = 0x1f := rfl
    rcases hnext with hreload | hless
    · rw [hreload] at habove
      omega
    · omega

theorem random_reloads_on_first_instruction :
    let hw := TestBoard.hardware
    let p : Processor TestBoard := { hardware := {}, machine := {} }
    let c : Call := .interpret (TestBoard.writeWired 3) false
    let q := endState (c.perform hw p)
    p.registers.cop0 Cop0.random = 0 ∧ c.perform hw p = .ok () q ∧
      q.registers.cop0 Cop0.random = 0x1f ∧
      ∃ f r, c.execution hw p = .ok f r ∧ r.registers.cop0 Cop0.wired ≠ f.wired := by
  intro hw p c q
  have hc : c.perform hw p = .ok () q := eq_ok_of_completes (by decide +kernel)
  have hq : q.registers.cop0 Cop0.random = 0x1f := by decide +kernel
  obtain ⟨f, r, hexec, -, hwraps, -⟩ := random_wraps_only_from_zero hw p q c hc
  refine ⟨rfl, hc, hq, f, r, hexec, fun hwired => ?_⟩
  have hzero : (endState (c.execution hw p)).registers.cop0 Cop0.random = 0 := by decide +kernel
  rw [hexec] at hzero
  have htop := hwraps ⟨hzero, hwired⟩
  rw [hq] at htop
  cases htop

/-- Random is zero on a machine that was never reset, and after a reset an instruction of the guest
writes zero to it. -/
theorem random_wraps_without_reset_or_by_write :
    let hw := Scripted.Board.hardware
    let fresh : Processor Scripted.Board := { hardware := {}, machine := {} }
    let reset := fresh.onRegisters (·.operate .reset)
    ∀ x ∈ [(fresh, Call.interpret 0 false), (reset, Call.interpret 0x03010000 false)],
      ∃ f r q, x.2.execution hw x.1 = .ok f r ∧ x.2.perform hw x.1 = .ok () q ∧
        r.registers.cop0 Cop0.random = 0 ∧ q.registers.cop0 Cop0.random = 0xffffffffffffffff ∧
        ¬ (q.registers.cop0 Cop0.random = 0x1f ∨
          (q.registers.cop0 Cop0.random).toNat + 1 = (r.registers.cop0 Cop0.random).toNat) := by
  intro hw fresh reset x hx
  have hrun : completes (x.2.perform hw x.1) = true ∧
      (endState (x.2.execution hw x.1)).registers.cop0 Cop0.random = 0 ∧
      (endState (x.2.perform hw x.1)).registers.cop0 Cop0.random = 0xffffffffffffffff := by
    revert x
    decide +kernel
  obtain ⟨hcompletes, hzero, htop⟩ := hrun
  have hperform := eq_ok_of_completes hcompletes
  obtain ⟨f, r, hexec, -, -⟩ := Call.perform_ok_iff.mp hperform
  rw [hexec] at hzero
  refine ⟨f, r, _, hexec, hperform, hzero, htop, ?_⟩
  change r.registers.cop0 Cop0.random = 0 at hzero
  rw [htop, hzero]
  decide

end ConsoleCore.Processor
