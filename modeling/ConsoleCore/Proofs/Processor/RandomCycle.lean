import ConsoleCore.Proofs.Period
import ConsoleCore.Proofs.Processor.Random
import ConsoleCore.Proofs.Processor.Stages

/-!
# The cycle of Random

As long as nobody else writes it and Wired stays where it is, Random goes round the values from
Wired, or from one, up to its upper bound.
-/

namespace ConsoleCore.Processor

variable {σ ι : Type} {hw : Hardware σ ι}

/-! ## One count -/

theorem nextRandom_of_same_wired {random : UInt64} (h : 1 ≤ random) (wired : UInt64) :
    (nextRandom random wired wired).toNat =
      if random.toNat ≤ max wired.toNat 1 then 0x1f else random.toNat - 1 := by
  have hone : 1 ≤ random.toNat := UInt64.le_iff_toNat_le.mp h
  have hreload : random.toNat - 1 < wired.toNat ∨ random.toNat = 1 ∨ wired ≠ wired ↔
      random.toNat ≤ max wired.toNat 1 := by
    simp only [ne_eq, not_true_eq_false, or_false]
    omega
  rw [nextRandom_toNat h]
  simp only [hreload]

/-- One completed instruction that finds Wired at `w` and leaves it there, after anything that
leaves Random as it was. -/
inductive CountsDown (hw : Hardware σ ι) (w : UInt64) (p q : Processor σ) : Prop where
  | intro (us : List (Use σ)) (c : Call) (f : InFlight ι) (r : Processor σ)
    (between : (after hw p us).registers.cop0 Cop0.random = p.registers.cop0 Cop0.random)
    (execution : c.execution hw (after hw p us) = .ok f r)
    (completed : c.perform hw (after hw p us) = .ok () q)
    (random : r.registers.cop0 Cop0.random =
      (after hw p us).registers.cop0 Cop0.random)
    (before : f.wired = w)
    (wired : r.registers.cop0 Cop0.wired = w)

theorem random_of_perform {c : Call} {p q : Processor σ} (h : c.perform hw p = .ok () q) :
    ∃ f r, c.execution hw p = .ok f r ∧ q.registers.cop0 Cop0.random =
      nextRandom (r.registers.cop0 Cop0.random) f.wired (r.registers.cop0 Cop0.wired) := by
  obtain ⟨f, r, hexec, -, rfl⟩ := Call.perform_ok_iff.mp h
  exact ⟨f, r, hexec, cop0_random_updateTimers _ _ _⟩

theorem CountsDown.random_eq {w : UInt64} {p q : Processor σ} (h : CountsDown hw w p q) :
    q.registers.cop0 Cop0.random = nextRandom (p.registers.cop0 Cop0.random) w w := by
  obtain ⟨us, c, f, r, hbetween, hexec, hcompleted, hrandom, hbefore, hwired⟩ := h
  obtain ⟨f', r', hexec', hq⟩ := random_of_perform hcompleted
  rw [hexec] at hexec'
  cases hexec'
  rw [hq, hrandom, hbetween, hbefore, hwired]

/-! ## Round and round -/

theorem countdown_succ {low n value : Nat} (hlow : low ≤ 0x1f)
    (hvalue : value = 0x1f - n % (0x20 - low)) :
    (if value ≤ low then 0x1f else value - 1) = 0x1f - (n + 1) % (0x20 - low) := by
  have hperiod : 0 < 0x20 - low := by omega
  have hlt : n % (0x20 - low) < 0x20 - low := Nat.mod_lt n hperiod
  rw [succ_mod hperiod]
  split <;> split <;> omega

/-- Any period of the countdown shows every value from `low` to the upper bound once. -/
theorem countdown_perm {low : Nat} (hlow : low ≤ 0x1f) (i : Nat) :
    ((List.range (0x20 - low)).map fun j => 0x1f - (i + j) % (0x20 - low)).Perm
      (List.range' low (0x20 - low)) := by
  have hdown : (List.range (0x20 - low)).map (fun j => 0x1f - j) =
      (List.range' low (0x20 - low)).reverse := by
    have hmax : low + (0x20 - low) - 1 = 0x1f := by omega
    rw [List.reverse_range', hmax]
  have hround := (perm_range_mod i (0x20 - low)).map fun j => 0x1f - j
  rw [List.map_map, hdown] at hround
  exact hround.trans (List.reverse_perm _)

theorem random_of_run {w : UInt64} {n : Nat} {run : Nat → Processor σ}
    (hlow : max w.toNat 1 ≤ 0x1f) (hstart : (run 0).registers.cop0 Cop0.random = 0x1f)
    (hrun : ∀ i < n, CountsDown hw w (run i) (run (i + 1))) :
    ((run n).registers.cop0 Cop0.random).toNat = 0x1f - n % (0x20 - max w.toNat 1) := by
  induction n with
  | zero =>
    rw [hstart, Nat.zero_mod]
    rfl
  | succ n ih =>
    have hvalue := ih fun i hi => hrun i (Nat.lt_succ_of_lt hi)
    have hone : 1 ≤ (run n).registers.cop0 Cop0.random := by
      have hlt : n % (0x20 - max w.toNat 1) < 0x20 - max w.toNat 1 := Nat.mod_lt _ (by omega)
      rw [UInt64.le_iff_toNat_le, UInt64.toNat_one]
      omega
    rw [(hrun n (Nat.lt_succ_self n)).random_eq, nextRandom_of_same_wired hone]
    exact countdown_succ hlow hvalue

theorem random_of_run_beyond {w : UInt64} {n : Nat} {run : Nat → Processor σ}
    (hbeyond : 0x1f < w) (hstart : (run 0).registers.cop0 Cop0.random = 0x1f)
    (hrun : ∀ i < n, CountsDown hw w (run i) (run (i + 1))) :
    (run n).registers.cop0 Cop0.random = 0x1f := by
  induction n with
  | zero => exact hstart
  | succ n ih =>
    have hvalue := ih fun i hi => hrun i (Nat.lt_succ_of_lt hi)
    have hbound : (0x1f : UInt64).toNat = 0x1f := rfl
    rw [UInt64.lt_iff_toNat_lt, hbound] at hbeyond
    rw [(hrun n (Nat.lt_succ_self n)).random_eq, hvalue, ← UInt64.toNat_inj,
      nextRandom_of_same_wired (by decide), if_pos (by omega)]
    rfl

/-! ## A change of Wired -/

theorem wired_of_execution {c : Call} {p r : Processor σ} {f : InFlight ι}
    {request : UInt32 × Bool} {polled : Rig σ} (hexec : c.execution hw p = .ok f r)
    (hpolled : c.fetchAndPoll hw p.toRig = .ok request polled)
    (hdecode : (hw.decode request.1 { kernel := true, delaySlot := request.2 }).Leaves
      (·.cop0 Cop0.wired)) :
    f.wired = polled.machine.registers.cop0 Cop0.wired := by
  obtain ⟨request', polled', decoded, executed, hpolled', hdecoded, hwired, -, -⟩ :=
    Call.execution_ok_iff.mp hexec
  rw [hpolled] at hpolled'
  cases hpolled'
  have hkeeps := Rig.keeps_view_registers_call
    (P := (· = polled.machine.registers.cop0 Cop0.wired)) hdecode
  rw [hwired]
  exact hkeeps.of_ok (wired_readied ⟨polled, p.accumulator⟩) hdecoded

theorem random_of_changed_wired {c : Call} {p q r : Processor σ} {f : InFlight ι}
    (hcompleted : c.perform hw p = .ok () q) (hexec : c.execution hw p = .ok f r)
    (hchanged : r.registers.cop0 Cop0.wired ≠ f.wired) :
    q.registers.cop0 Cop0.random = Cop0.randomMax := by
  obtain ⟨f', r', hexec', hq⟩ := random_of_perform hcompleted
  rw [hexec] at hexec'
  cases hexec'
  exact hq.trans (nextRandom_of_ne hchanged _)

/-! ## Any stretch of a program -/

/-- While Wired stays at `w`, Random goes round the values from `w`, or from one, up to its upper
bound. -/
theorem random_goes_round_unwired_range (hw : Hardware σ ι) (w : UInt64) (n : Nat)
    (run : Nat → Processor σ) (hstart : (run 0).registers.cop0 Cop0.random = 0x1f)
    (hrun : ∀ i < n, CountsDown hw w (run i) (run (i + 1))) :
    let random (i : Nat) := ((run i).registers.cop0 Cop0.random).toNat
    let low := max w.toNat 1
    let period := 0x20 - low
    (w ≤ 0x1f →
      (∀ i ≤ n, random i = 0x1f - i % period) ∧
      ∀ i, i + period ≤ n + 1 →
        ((List.range period).map fun j => random (i + j)).Perm (List.range' low period)) ∧
    (0x1f < w → ∀ i ≤ n, random i = 0x1f) ∧
    ∀ (c : Call) (p q : Processor σ), c.perform hw p = .ok () q →
      ∃ request polled f r, c.fetchAndPoll hw p.toRig = .ok request polled ∧
        c.execution hw p = .ok f r ∧
        ((hw.decode request.1 { kernel := true, delaySlot := request.2 }).Leaves
            (·.cop0 Cop0.wired) →
          f.wired = polled.machine.registers.cop0 Cop0.wired) ∧
        (r.registers.cop0 Cop0.wired ≠ f.wired → q.registers.cop0 Cop0.random = 0x1f) := by
  intro random low period
  have hupTo : ∀ i ≤ n, ∀ j < i, CountsDown hw w (run j) (run (j + 1)) :=
    fun i hi j hj => hrun j (Nat.lt_of_lt_of_le hj hi)
  refine ⟨fun hwired => ?_, fun hbeyond i hi => ?_, fun c p q hcompleted => ?_⟩
  · have hlow : low ≤ 0x1f := by
      have hbound : (0x1f : UInt64).toNat = 0x1f := rfl
      rw [UInt64.le_iff_toNat_le, hbound] at hwired
      omega
    have hvalue : ∀ i ≤ n, random i = 0x1f - i % period :=
      fun i hi => random_of_run hlow hstart (hupTo i hi)
    refine ⟨hvalue, fun i hi => ?_⟩
    -- A window of the run is a window of the remainders.
    have hshown : (List.range period).map (fun j => random (i + j)) =
        (List.range period).map fun j => 0x1f - (i + j) % period := by
      apply List.map_congr_left
      intro j hj
      have hj : j < period := List.mem_range.mp hj
      exact hvalue (i + j) (by omega)
    rw [hshown]
    exact countdown_perm hlow i
  · exact UInt64.toNat_inj.mpr (random_of_run_beyond hbeyond hstart (hupTo i hi))
  · obtain ⟨f, r, hexec, -⟩ := random_of_perform hcompleted
    obtain ⟨request, polled, -, -, hpolled, -⟩ := Call.execution_ok_iff.mp hexec
    exact ⟨request, polled, f, r, hpolled, hexec, wired_of_execution hexec hpolled,
      random_of_changed_wired hcompleted hexec⟩

theorem random_goes_round_three_values :
    let hw := TestBoard.hardware
    let p : Processor TestBoard :=
      { hardware := {}, machine := { registers := Registers.atReset.setCop0 Cop0.wired 0x1d } }
    let writes : List (Use TestBoard) := [
      .registers (.write (.cop0 Cop0.wired 3)), .registers (.write (.cop0 Cop0.wired 0x1d))]
    let nop : Call := .interpret TestBoard.nop false
    let run (i : Nat) := Nat.repeat (after hw · (writes ++ [.call nop])) i p
    let random (i : Nat) := ((run i).registers.cop0 Cop0.random).toNat
    (run 0).registers.cop0 Cop0.random = 0x1f ∧
      (∀ i < 7, CountsDown hw 0x1d (run i) (run (i + 1))) ∧
      random 7 = 0x1e ∧ [random 4, random 5, random 6].Perm [0x1d, 0x1e, 0x1f] := by
  intro hw p writes nop run random
  have hfirst : (run 0).registers.cop0 Cop0.random = 0x1f := by decide
  have hbetween (s : Processor TestBoard) :
      (after hw s writes).registers.cop0 Cop0.random = s.registers.cop0 Cop0.random :=
    (Registers.cop0_setCop0_of_ne (by decide) _ _).trans
      (Registers.cop0_setCop0_of_ne (by decide) _ _)
  have hcheck : ∀ i < 7, (match nop.execution hw (after hw (run i) writes) with
      | .ok f r => decide (f.wired = 0x1d ∧ r.registers.cop0 Cop0.wired = 0x1d ∧
          r.registers.cop0 Cop0.random = (run i).registers.cop0 Cop0.random) &&
          completes (nop.perform hw (after hw (run i) writes))
      | .error _ _ => false) = true := by
    decide +kernel
  have hrun : ∀ i < 7, CountsDown hw 0x1d (run i) (run (i + 1)) := by
    intro i hi
    have hi := hcheck i hi
    cases hexec : nop.execution hw (after hw (run i) writes) with
    | ok f r =>
      simp only [hexec, Bool.and_eq_true, decide_eq_true_eq] at hi
      obtain ⟨⟨hbefore, hwired, hrandom⟩, hcompletes⟩ := hi
      exact ⟨writes, nop, f, r, hbetween _, hexec, eq_ok_of_completes hcompletes,
        hrandom.trans (hbetween _).symm, hbefore, hwired⟩
    | error e r => simp only [hexec, Bool.false_eq_true] at hi
  obtain ⟨hvalue, hshown⟩ :=
    (random_goes_round_unwired_range hw 0x1d 7 run hfirst hrun).1 (by decide)
  exact ⟨hfirst, hrun, hvalue 7 (by decide), hshown 4 (by decide)⟩

end ConsoleCore.Processor
