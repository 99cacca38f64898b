import ConsoleCore.TestBoard
import ConsoleCore.Proofs.Memory
import ConsoleCore.Proofs.Processor.Count
import ConsoleCore.Proofs.Processor.Agreement

/-!
# Straight-line programs

The test board has no branches, so a program runs through to its end, wherever in memory it lies
and whatever its instructions cost. Every register then holds what was last loaded into it.
-/

namespace ConsoleCore.TestBoard

open Processor

/-! ## Calling the board -/

def polled (b : TestBoard) : TestBoard := { b with polls := b.polls + 1 }

def fetched (p : Processor TestBoard) : Instruction where
  opcode := memoryAccess.readWord p.hardware p.registers.pc.toUInt32
  cost := p.hardware.cost

theorem fetch_eq (p : Processor TestBoard) : fetch hardware p = .ok (fetched p).opcode p := by
  obtain ⟨⟨hardware, ⟨registers, powered, cycles, statistics⟩⟩, accumulator⟩ := p
  cases powered <;> rfl

theorem call_poll {p : Processor TestBoard} (h : p.hardware.jump = none) :
    Processor.call (hardware.poll false) p =
      .ok () { p with hardware := p.hardware.polled } := by
  obtain ⟨⟨⟨memory, cost, jump, polls, inits, calls, written, polled⟩,
    ⟨registers, powered, cycles, statistics⟩⟩, accumulator⟩ := p
  cases h
  cases powered <;> rfl

theorem call_decode (p : Processor TestBoard) (opcode : UInt32) (flags : DecodeFlags) :
    Processor.call (hardware.decode opcode flags) p = .ok ⟨opcode, p.hardware.cost⟩ p := by
  obtain ⟨⟨hardware, ⟨registers, powered, cycles, statistics⟩⟩, accumulator⟩ := p
  cases powered <;> rfl

theorem call_execute (p : Processor TestBoard) (i : Instruction) :
    Processor.call (Hook.withoutWaiting (hardware.execute i)) p =
      .ok () (p.onRegisters i.apply) := by
  obtain ⟨⟨hardware, ⟨registers, powered, cycles, statistics⟩⟩, accumulator⟩ := p
  cases powered <;> rfl

/-! ## One step -/

def readied (p : Processor TestBoard) : Processor TestBoard :=
  startOver ({ p with hardware := p.hardware.polled }.onRegisters Registers.clearZero)

theorem hardware_readied (p : Processor TestBoard) :
    (readied p).hardware = p.hardware.polled := by
  unfold readied startOver
  split <;> rfl

theorem execution_step {p : Processor TestBoard} (h : p.hardware.jump = none) :
    Call.step.execution hardware p =
      .ok ⟨fetched p, (readied p).registers.cop0 Cop0.wired⟩
        ((readied p).onRegisters (fetched p).apply) := by
  have hready : startOver ({ p with hardware := p.hardware.polled }.onRegisters
      Registers.clearZero) = readied p := rfl
  have hdecode := call_decode (readied p) (fetched p).opcode ⟨true, false⟩
  rw [hardware_readied] at hdecode
  change (fetch hardware >>= fun opcode => Processor.execute hardware opcode false) p = _
  rw [bind_of_ok (fetch_eq p)]
  unfold Processor.execute dispatch
  simp only [bind_assoc]
  rw [bind_of_ok (call_poll h), bind_of_ok (modify_apply _ _), bind_of_ok (modify_apply _ _),
    hready, bind_of_ok hdecode, bind_of_ok (get_apply _), pure_bind, bind_of_ok (call_execute _ _)]
  rfl

def stepped (p : Processor TestBoard) : Processor TestBoard :=
  retired hardware ⟨fetched p, (readied p).registers.cop0 Cop0.wired⟩
    ((readied p).onRegisters (fetched p).apply)

/-- Zero, or the cost of at least one instruction. -/
def HoldsCosts (p : Processor TestBoard) : Prop :=
  p.accumulator = 0 ∨ p.hardware.cost ≤ p.accumulator

theorem step_eq {p : Processor TestBoard} (hjump : p.hardware.jump = none) (h : HoldsCosts p) :
    step hardware p = .ok () (stepped p) :=
  step_of_execution (execution_step hjump) (startOver_has_room h)

theorem hardware_stepped (p : Processor TestBoard) : (stepped p).hardware = p.hardware.polled :=
  hardware_readied p

theorem holdsCosts_stepped {p : Processor TestBoard} (h : HoldsCosts p) :
    HoldsCosts (stepped p) := by
  have hroom : (readied p).accumulator.toNat + p.hardware.cost.toNat < UInt64.size :=
    startOver_has_room h
  right
  rw [hardware_stepped]
  change p.hardware.cost ≤ (readied p).accumulator + p.hardware.cost
  rw [UInt64.le_iff_toNat_le, UInt64.toNat_add]
  unfold UInt64.size at hroom
  omega

theorem cycles_stepped (p : Processor TestBoard) :
    (stepped p).machine.cycles = p.machine.cycles + p.hardware.cost := by
  have hready : (readied p).machine.cycles = p.machine.cycles := by
    unfold readied startOver
    split <;> rfl
  rw [← hready]
  rfl

theorem instructions_stepped (p : Processor TestBoard) :
    (stepped p).machine.statistics.instructions = p.machine.statistics.instructions + 1 := by
  have hready : (readied p).machine.statistics = p.machine.statistics := by
    unfold readied startOver
    split <;> rfl
  rw [← hready]
  rfl

/-! ## The registers after a step -/

def immediate (opcode : UInt32) : UInt64 := (opcode &&& 0xffff).toUInt64

def write? (opcode : UInt32) : Option RegisterWrite :=
  if opcode >>> 24 = 1 then some (.gpr ((opcode >>> 16) &&& 0x1f).toNat (immediate opcode))
  else if opcode >>> 24 = 2 then some (.cop0 Cop0.wired (immediate opcode))
  else none

theorem apply_eq (i : Instruction) (r : Registers) :
    i.apply r = ((write? i.opcode).elim r r.write).setPc (r.pc + 4) := by
  have hpc (k : Nat) (v : UInt64) : (r.setGpr k v).pc = r.pc := by
    unfold Registers.setGpr
    split <;> rfl
  simp only [Instruction.apply, write?]
  split
  · rw [hpc]
    rfl
  · split <;> rfl

theorem pc_stepped (p : Processor TestBoard) :
    (stepped p).registers.pc = p.registers.pc + 4 := by
  have hready : (readied p).registers.pc = p.registers.pc := by
    unfold readied startOver
    split <;> rfl
  change ((fetched p).apply (readied p).registers).pc = _
  rw [apply_eq, ← hready]
  rfl

def moving : List Register :=
  [.pc, RegisterWrite.target (.cop0 Cop0.count 0), RegisterWrite.target (.cop0 Cop0.random 0)]

theorem not_mem_moving {x : Register} :
    x ∉ moving ↔ x ≠ .pc ∧ x ≠ .cop0 (Fin.ofNat 32 Cop0.count) ∧
      x ≠ .cop0 (Fin.ofNat 32 Cop0.random) := by
  simp [moving, RegisterWrite.target]

theorem read_stepped {p : Processor TestBoard} (hzero : p.registers.read .r0 = 0) {x : Register}
    (hx : x ∉ moving) :
    (stepped p).registers.read x =
      ((write? (fetched p).opcode).elim p.registers p.registers.write).read x := by
  obtain ⟨hpc, hcount, hrandom⟩ := not_mem_moving.mp hx
  have hready : (readied p).registers.read x = p.registers.read x := by
    unfold readied
    rw [read_startOver hcount]
    exact Registers.read_clearZero hzero x
  have hset (r : Registers) (v : UInt64) : (r.setPc v).read x = r.read x := by
    cases x with
    | pc => exact absurd rfl hpc
    | gpr | cop0 | hi | lo => rfl
  unfold stepped
  rw [registers_retired, read_updateTimers hcount hrandom, registers_onRegisters, apply_eq, hset]
  cases write? (fetched p).opcode with
  | none => exact hready
  | some w => exact Registers.read_write_congr hready w

/-! ## Whole programs -/

/-- These instructions were executed one after the other, on a board that was `b` before. -/
structure Ran (b : TestBoard) (base : UInt32) (done : List UInt32) (p : Processor TestBoard) :
    Prop where
  board : p.hardware = { b with polls := b.polls + done.length }
  pc : p.registers.pc = base.toUInt64 + UInt64.ofNat (4 * done.length)
  registers : ∀ x, x ∉ moving →
    p.registers.read x = (Registers.writeAll {} (done.filterMap write?)).read x
  cycles : p.machine.cycles = UInt64.ofNat (done.length * b.cost.toNat)
  instructions : p.machine.statistics.instructions = UInt64.ofNat done.length
  accumulator : HoldsCosts p

variable {b : TestBoard} {base : UInt32} {done : List UInt32} {p : Processor TestBoard}

theorem Ran.opcode_fetched (h : Ran b base done p) :
    (fetched p).opcode = memoryAccess.readWord b (base + UInt32.ofNat (4 * done.length)) := by
  have hpc : p.registers.pc.toUInt32 = base + UInt32.ofNat (4 * done.length) := by
    rw [h.pc]
    simp
  unfold fetched
  rw [hpc, h.board]
  rfl

theorem Ran.r0_eq_zero (h : Ran b base done p) : p.registers.read .r0 = 0 := by
  rw [h.registers .r0 (by decide), Registers.r0_writeAll]
  rfl

theorem Ran.step (h : Ran b base done p) (hjump : b.jump = none) :
    ∃ q, Processor.step hardware p = .ok () q ∧
      Ran b base
        (done ++ [memoryAccess.readWord b (base + UInt32.ofNat (4 * done.length))]) q := by
  have hnojump : p.hardware.jump = none := by
    rw [h.board]
    exact hjump
  refine ⟨_, step_eq hnojump h.accumulator, ?_⟩
  constructor
  case board =>
    rw [hardware_stepped, h.board, List.length_append]
    rfl
  case pc =>
    rw [pc_stepped, h.pc, List.length_append]
    simp [UInt64.add_assoc, Nat.mul_add]
  case registers =>
    intro x hx
    have hsame := h.registers x hx
    rw [read_stepped h.r0_eq_zero hx, h.opcode_fetched, List.filterMap_append,
      Registers.writeAll_append]
    simp only [List.filterMap_cons, List.filterMap_nil]
    cases write? (memoryAccess.readWord b (base + UInt32.ofNat (4 * done.length))) with
    | none => exact hsame
    | some w => exact Registers.read_write_congr hsame w
  case cycles =>
    have hcost : p.hardware.cost = b.cost := by rw [h.board]
    rw [cycles_stepped, h.cycles, hcost, List.length_append, Nat.add_mul]
    simp
  case instructions =>
    rw [instructions_stepped, h.instructions, List.length_append]
    simp
  case accumulator => exact holdsCosts_stepped h.accumulator

def atStart (b : TestBoard) (base : UInt32) : Processor TestBoard where
  hardware := b
  machine := { registers := Registers.atReset.setPc base.toUInt64 }

theorem ran_atStart (b : TestBoard) (base : UInt32) : Ran b base [] (atStart b base) where
  board := rfl
  pc := (UInt64.add_zero _).symm
  registers x hx := by
    obtain ⟨hpc, -, hrandom⟩ := not_mem_moving.mp hx
    cases x with
    | cop0 i =>
      have hne : ¬ (i : Nat) % 32 = Cop0.random := by
        intro h
        apply hrandom
        rw [Nat.mod_eq_of_lt i.isLt] at h
        simp [Fin.ext_iff, h]
      exact (Registers.cop0_atReset i).trans ((if_neg hne).trans (Bank.read_zero i).symm)
    | gpr i => exact (Registers.gpr_atReset i).trans (Bank.read_zero i).symm
    | hi | lo => rfl
    | pc => exact absurd rfl hpc
  cycles := by simp [atStart]
  instructions := rfl
  accumulator := .inl rfl

theorem exists_ran (hjump : b.jump = none) {code : List UInt32}
    (hcode : ∀ k (hk : k < code.length),
      memoryAccess.readWord b (base + UInt32.ofNat (4 * k)) = code[k])
    {n : Nat} (hn : n ≤ code.length) :
    ∃ q, steps hardware n (atStart b base) = .ok () q ∧ Ran b base (code.take n) q := by
  induction n with
  | zero => exact ⟨_, rfl, ran_atStart b base⟩
  | succ n ih =>
    obtain ⟨p, hsteps, hran⟩ := ih (Nat.le_of_succ_le hn)
    obtain ⟨q, hstep, hnext⟩ := hran.step hjump
    have hlen : (code.take n).length = n := List.length_take_of_le (Nat.le_of_succ_le hn)
    rw [hlen, hcode n hn, List.take_append_getElem] at hnext
    exact ⟨q, steps_snoc hsteps hstep, hnext⟩

/-! ## What a program leaves in the registers -/

/-- The immediate value of the last of these instructions that is picked, or zero. -/
def lastImmediate (picked : UInt32 → Bool) (code : List UInt32) : UInt64 :=
  ((code.reverse.find? picked).map immediate).getD 0

def writes (x : Register) (opcode : UInt32) : Bool :=
  (write? opcode).any fun w => w.target = x

theorem value_of_write? {opcode : UInt32} {w : RegisterWrite} (h : write? opcode = some w) :
    w.value = immediate opcode := by
  unfold write? at h
  split at h
  · cases h
    rfl
  · split at h
    · cases h
      rfl
    · cases h

theorem lastWrite_eq_lastImmediate (x : Register) (code : List UInt32) :
    (lastWrite x (code.filterMap write?)).getD 0 = lastImmediate (writes x) code := by
  unfold lastWrite lastImmediate
  rw [← List.filterMap_reverse, List.find?_filterMap]
  change (((code.reverse.find? (writes x)).bind write?).map RegisterWrite.value).getD 0 = _
  cases h : code.reverse.find? (writes x) with
  | none => rfl
  | some opcode =>
    have hwrites := List.find?_some h
    unfold writes at hwrites
    cases hw : write? opcode with
    | none => simp [hw] at hwrites
    | some w => simp [hw, value_of_write? hw]

theorem Ran.read_eq (h : Ran b base done p) {x : Register} (hx : x ∉ moving) (hr0 : x ≠ .r0) :
    p.registers.read x = lastImmediate (writes x) done := by
  have hstart : Registers.read {} x = 0 := by
    cases x with
    | gpr i | cop0 i => exact Bank.read_zero i
    | hi | lo | pc => rfl
  rw [h.registers x hx, Registers.read_writeAll _ _ hr0, hstart, lastWrite_eq_lastImmediate]

theorem writes_gpr {i : Nat} (hi : i < 32) :
    writes (.gpr ⟨i, hi⟩) = fun opcode : UInt32 =>
      decide (opcode >>> 24 = 1 ∧ (opcode >>> 16) &&& 0x1f = UInt32.ofNat i) := by
  funext opcode
  have hfield : ((opcode >>> 16) &&& 0x1f).toNat < 32 := by
    rw [UInt32.toNat_and]
    exact Nat.lt_of_le_of_lt Nat.and_le_right (by decide)
  have hiff : (opcode >>> 16) &&& 0x1f = UInt32.ofNat i ↔
      ((opcode >>> 16) &&& 0x1f).toNat = i := by
    rw [← UInt32.toNat_inj, UInt32.toNat_ofNat_of_lt' (by unfold UInt32.size; omega)]
  unfold writes write?
  split
  · rename_i hload
    simp only [Option.any_some, RegisterWrite.target_gpr_iff, Nat.mod_eq_of_lt hfield, hload, hiff,
      true_and]
  · rename_i hload
    simp only [hload, false_and, decide_false]
    split <;> rfl

theorem writes_wired :
    writes (.cop0 (Fin.ofNat 32 Cop0.wired)) =
      fun opcode : UInt32 => decide (opcode >>> 24 = 2) := by
  funext opcode
  unfold writes write?
  split
  · rename_i hload
    rw [hload]
    rfl
  · rename_i hload
    split
    · rename_i hwired
      simp only [Option.any_some, hwired]
      rfl
    · rename_i hwired
      simp only [Option.any_none, hwired, decide_false]

theorem lastImmediate_of_not_written {x : Register} (hgpr : ∀ i, x ≠ .gpr i)
    (hwired : x ≠ .cop0 (Fin.ofNat 32 Cop0.wired)) (code : List UInt32) :
    lastImmediate (writes x) code = 0 := by
  have hnever (opcode : UInt32) : writes x opcode = false := by
    unfold writes write?
    split
    · exact decide_eq_false (Ne.symm (hgpr _))
    · split
      · exact decide_eq_false (Ne.symm hwired)
      · rfl
  have hnone : code.reverse.find? (writes x) = none := by
    rw [List.find?_eq_none]
    intro opcode _
    simp [hnever opcode]
  unfold lastImmediate
  rw [hnone]
  rfl

theorem Ran.read_eq_zero (h : Ran b base done p) {x : Register} (hx : x ∉ moving)
    (hgpr : ∀ i, x ≠ .gpr i) (hwired : x ≠ .cop0 (Fin.ofNat 32 Cop0.wired)) :
    p.registers.read x = 0 :=
  (h.read_eq hx (hgpr 0)).trans (lastImmediate_of_not_written hgpr hwired done)

theorem Ran.gpr_eq (h : Ran b base done p) {i : Nat} (hpos : 0 < i) (hi : i < 32) :
    p.registers.gpr i =
      lastImmediate (fun opcode => opcode >>> 24 = 1 ∧ (opcode >>> 16) &&& 0x1f = UInt32.ofNat i)
        done := by
  have hr0 : Register.gpr ⟨i, hi⟩ ≠ .r0 := by
    intro h
    cases h
    exact Nat.lt_irrefl 0 hpos
  rw [← writes_gpr hi]
  exact h.read_eq (not_mem_moving.mpr (by simp)) hr0

theorem Ran.wired_eq (h : Ran b base done p) :
    p.registers.cop0 Cop0.wired = lastImmediate (fun opcode => opcode >>> 24 = 2) done := by
  rw [← writes_wired]
  exact h.read_eq (x := .cop0 (Fin.ofNat 32 Cop0.wired)) (by decide) (by decide)

theorem Ran.cop0_eq_zero (h : Ran b base done p) {i : Nat} (hi : i < 32) (hwired : i ≠ Cop0.wired)
    (hrandom : i ≠ Cop0.random) (hcount : i ≠ Cop0.count) : p.registers.cop0 i = 0 := by
  have hne {j : Nat} (hj : j < 32) (hij : i ≠ j) :
      Register.cop0 ⟨i, hi⟩ ≠ .cop0 (Fin.ofNat 32 j) := by
    simp only [ne_eq, Register.cop0.injEq, Fin.ext_iff, Fin.val_ofNat, Nat.mod_eq_of_lt hj]
    exact hij
  have hmoving : Register.cop0 ⟨i, hi⟩ ∉ moving :=
    not_mem_moving.mpr ⟨by simp, hne (by decide) hcount, hne (by decide) hrandom⟩
  exact h.read_eq_zero hmoving (by simp) (hne (by decide) hwired)

/-! ## A program in memory -/

theorem keepsApart (start : UInt32) {n : Nat} (hn : n ≤ 0x20000000) :
    memoryAccess.KeepsApart (·.memory.mask = 0x1fffffff) start n := backedBy.keepsApart start hn

theorem load_eq (b : TestBoard) (address : UInt32) (bytes : List UInt8) :
    memoryAccess.load b address bytes =
      { b with memory := SparseMemory.access.load b.memory address bytes } := by
  induction bytes generalizing b address with
  | nil => rfl
  | cons byte bytes ih => exact ih _ _

theorem program_eq (b : TestBoard) (base : UInt32) (code : List UInt32) :
    b.program base code =
      { b with
        memory := SparseMemory.access.load b.memory base (code.flatMap Memory.bigEndian) } :=
  (Memory.loadWords_eq_load memoryAccess b base code).trans (load_eq b base _)

/-- A program of up to 512 megabytes, the whole memory, runs from its first instruction to any later
one, and every register holds what was last loaded into it. -/
theorem straight_line_program_runs (b : TestBoard) (hmask : b.memory.mask = 0x1fffffff)
    (hjump : b.jump = none) (base : UInt32) (code : List UInt32) (hcode : code.length ≤ 0x8000000)
    (n : Nat) (hn : n ≤ code.length) :
    let loaded := b.program base code
    ∃ q, steps hardware n (atStart loaded base) = .ok () q ∧
      q.registers.pc.toNat = base.toNat + 4 * n ∧
      q.hardware = { loaded with polls := b.polls + n } ∧
      (∀ k (hk : k < code.length),
        memoryAccess.readWord q.hardware (base + UInt32.ofNat (4 * k)) = code[k]) ∧
      q.registers.gpr 0 = 0 ∧
      (∀ i, 0 < i → i < 32 → q.registers.gpr i =
        lastImmediate (fun opcode => opcode >>> 24 = 1 ∧ (opcode >>> 16) &&& 0x1f = UInt32.ofNat i)
          (code.take n)) ∧
      q.registers.cop0 Cop0.wired =
        lastImmediate (fun opcode => opcode >>> 24 = 2) (code.take n) ∧
      q.registers.hi = 0 ∧ q.registers.lo = 0 ∧
      (∀ i < 32, i ≠ Cop0.wired → i ≠ Cop0.random → i ≠ Cop0.count → q.registers.cop0 i = 0) ∧
      q.machine.cycles = UInt64.ofNat (n * b.cost.toNat) ∧
      q.machine.statistics.instructions.toNat = n := by
  intro loaded
  have hloaded : loaded = _ := program_eq b base code
  have hnojump : loaded.jump = none := by rw [hloaded, hjump]
  have hcost : loaded.cost = b.cost := by rw [hloaded]
  have hpolls : loaded.polls = b.polls := by rw [hloaded]
  have hword (k : Nat) (hk : k < code.length) :
      memoryAccess.readWord loaded (base + UInt32.ofNat (4 * k)) = code[k] :=
    (keepsApart base (by omega)).readWord_loadWords hmask (Nat.le_refl _) hk
  -- From here on, everything is read off the record of what was executed.
  obtain ⟨q, hsteps, hran⟩ := exists_ran hnojump hword hn
  have hlen : (code.take n).length = n := List.length_take_of_le hn
  have hbase := base.toNat_lt
  refine ⟨q, hsteps, ?_, ?_, ?_, hran.r0_eq_zero, fun i => hran.gpr_eq, hran.wired_eq,
    hran.read_eq_zero (x := .hi) (by decide) (by simp) (by decide),
    hran.read_eq_zero (x := .lo) (by decide) (by simp) (by decide),
    fun i hi => hran.cop0_eq_zero hi, ?_, ?_⟩
  · rw [hran.pc, hlen, UInt64.toNat_add, UInt32.toNat_toUInt64, UInt64.toNat_ofNat']
    omega
  · rw [hran.board, hlen, hpolls]
  · rw [hran.board]
    exact hword
  · rw [hran.cycles, hlen, hcost]
  · rw [hran.instructions, hlen, UInt64.toNat_ofNat']
    omega

/-- Twenty bytes that cross the end of the address space, from an odd address on. The cycle counter
overflows with every step. -/
theorem program_crosses_last_address :
    let b : TestBoard := { cost := 0xffffffffffffffff }
    let code := [loadImmediate 3 7, writeWired 5, loadImmediate 0 9, loadImmediate 3 8, nop]
    ∃ q, steps hardware 5 (atStart (b.program 0xfffffff5 code) 0xfffffff5) = .ok () q ∧
      q.registers.pc.toNat = 0x100000009 ∧
      q.registers.gpr 0 = 0 ∧ q.registers.gpr 3 = 8 ∧ q.registers.gpr 4 = 0 ∧
      q.registers.cop0 Cop0.wired = 5 ∧
      q.machine.cycles = 0xfffffffffffffffb ∧ q.machine.statistics.instructions.toNat = 5 := by
  intro b code
  obtain ⟨q, hsteps, hpc, -, -, hzero, hgpr, hwired, -, -, -, hcycles, hinstructions⟩ :=
    straight_line_program_runs b rfl rfl 0xfffffff5 code (by decide) 5 (by decide)
  refine ⟨q, hsteps, hpc, hzero, ?_, ?_, ?_, hcycles.trans (by decide), hinstructions⟩
  · exact (hgpr 3 (by decide) (by decide)).trans (by decide)
  · exact (hgpr 4 (by decide) (by decide)).trans (by decide)
  · exact hwired.trans (by decide)

end ConsoleCore.TestBoard
