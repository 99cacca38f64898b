import Mathlib.Data.List.DropRight
import Mathlib.Data.List.Induction
import ConsoleCore.Proofs.Registers

/-!
# Registers by their history

Which value a register holds can be told from the operations alone: it is the last one that was
written to it since it was last cleared. Only R0 is always zero, and only a reset leaves another
value than zero behind, in Random.
-/

namespace ConsoleCore

/-! ## Histories -/

def Registers.operateAll (r : Registers) (ops : List RegisterOperation) : Registers :=
  ops.foldl operate r

theorem Registers.operateAll_snoc (r : Registers) (ops : List RegisterOperation)
    (op : RegisterOperation) : r.operateAll (ops ++ [op]) = (r.operateAll ops).operate op :=
  List.foldl_append

namespace RegisterOperation

def clears : Register → RegisterOperation → Bool
  | .gpr _, clearGpr | _, reset => true
  | _, _ => false

def write? : RegisterOperation → Option RegisterWrite
  | write w => some w
  | clearZero | clearGpr | reset => none

end RegisterOperation

/-- The writes, to all registers, since one of them was last cleared. -/
def writesSinceCleared (x : Register) (ops : List RegisterOperation) : List RegisterWrite :=
  (ops.rtakeWhile fun op => !op.clears x).filterMap RegisterOperation.write?

variable {x : Register} {ops : List RegisterOperation} {op : RegisterOperation}

theorem writesSinceCleared_of_clears (h : op.clears x = true) :
    writesSinceCleared x (ops ++ [op]) = [] := by
  unfold writesSinceCleared
  rw [List.rtakeWhile_concat_neg]
  · rfl
  · simp [h]

theorem writesSinceCleared_snoc (h : op.clears x = false) :
    writesSinceCleared x (ops ++ [op]) = writesSinceCleared x ops ++ op.write?.toList := by
  unfold writesSinceCleared
  rw [List.rtakeWhile_concat_pos, List.filterMap_append]
  · cases op <;> rfl
  · simp [h]

/-- What a register holds that was not written to since it was cleared. -/
def clearedValue : Register → List RegisterOperation → UInt64
  | .cop0 i, ops => if (i : Nat) = Cop0.random ∧ .reset ∈ ops then Cop0.randomMax else 0
  | .gpr _, _ | .hi, _ | .lo, _ | .pc, _ => 0

theorem clearedValue_snoc (h : op.clears x = false) :
    clearedValue x (ops ++ [op]) = clearedValue x ops := by
  have hop : RegisterOperation.reset ≠ op := by
    rintro rfl
    cases x <;> cases h
  cases x with
  | cop0 i => simp [clearedValue, hop]
  | gpr | hi | lo | pc => rfl

theorem clearedValue_of_clears (h : op.clears x = true) :
    clearedValue x (ops ++ [op]) = clearedValue x [op] := by
  cases op with
  | write | clearZero => cases x <;> cases h
  | clearGpr => cases x <;> first | rfl | cases h
  | reset =>
    cases x with
    | cop0 i => simp [clearedValue]
    | gpr | hi | lo | pc => rfl

/-! ## Readers -/

namespace Registers

variable (r : Registers)

theorem gpr_eq_read (i : Nat) : r.gpr i = r.read (.gpr (Fin.ofNat 32 i)) := by
  simp only [read, gpr, Bank.read, Fin.val_ofNat, Nat.mod_mod]

theorem cop0_eq_read (i : Nat) : r.cop0 i = r.read (.cop0 (Fin.ofNat 32 i)) := by
  simp only [read, cop0, Bank.read, Fin.val_ofNat, Nat.mod_mod]

theorem gpr_snapshot (i : Fin 32) : r.snapshot.gpr[i] = r.gpr i := by
  simp only [gpr, Bank.read, Nat.mod_eq_of_lt i.isLt]
  rfl

theorem cop0_snapshot (i : Fin 32) : r.snapshot.cop0[i] = r.cop0 i := by
  simp only [cop0, Bank.read, Nat.mod_eq_of_lt i.isLt]
  rfl

/-! ## One operation -/

variable {r} in
theorem r0_operate (h : r.read .r0 = 0) (op : RegisterOperation) :
    (r.operate op).read .r0 = 0 := by
  cases op with
  | write w => exact (r0_write r w).trans h
  | clearZero => exact (read_clearZero h .r0).trans h
  | clearGpr => exact gpr_clearGpr r 0
  | reset => exact gpr_atReset 0

theorem read_atReset (x : Register) : atReset.read x = clearedValue x [.reset] := by
  cases x with
  | gpr i => exact gpr_atReset i
  | cop0 i =>
    have hmod : (i : Nat) % 32 = i := Nat.mod_eq_of_lt i.isLt
    simp only [read, cop0_atReset, hmod, clearedValue, List.mem_singleton, and_true]
  | hi | lo | pc => rfl

theorem read_operate_of_clears (h : op.clears x = true) :
    (r.operate op).read x = clearedValue x [op] := by
  cases op with
  | write | clearZero => cases x <;> cases h
  | clearGpr =>
    cases x with
    | gpr i => exact gpr_clearGpr r i
    | cop0 | hi | lo | pc => cases h
  | reset => exact read_atReset x

variable {r} in
theorem read_operate (hzero : r.read .r0 = 0) (hx : x ≠ .r0) (h : op.clears x = false) :
    (r.operate op).read x = (lastWrite x op.write?.toList).getD (r.read x) := by
  cases op with
  | write w => exact read_writeAll r [w] hx
  | clearZero => exact read_clearZero hzero x
  | clearGpr =>
    cases x with
    | gpr => cases h
    | cop0 | hi | lo | pc => rfl
  | reset => cases x <;> cases h

/-! ## A whole history -/

theorem r0_operateAll (ops : List RegisterOperation) :
    (({} : Registers).operateAll ops).read .r0 = 0 := by
  induction ops using List.reverseRecOn with
  | nil => rfl
  | append_singleton ops op ih =>
    rw [operateAll_snoc]
    exact r0_operate ih op

theorem read_operateAll (hx : x ≠ .r0) (ops : List RegisterOperation) :
    (({} : Registers).operateAll ops).read x =
      (lastWrite x (writesSinceCleared x ops)).getD (clearedValue x ops) := by
  induction ops using List.reverseRecOn with
  | nil =>
    cases x with
    | gpr i => exact Bank.read_zero i
    | cop0 i =>
      simp only [clearedValue, List.not_mem_nil, and_false, if_false]
      exact Bank.read_zero i
    | hi | lo | pc => rfl
  | append_singleton ops op ih =>
    rw [operateAll_snoc]
    cases hclears : op.clears x with
    | true =>
      rw [writesSinceCleared_of_clears hclears, clearedValue_of_clears hclears]
      exact read_operate_of_clears _ hclears
    | false =>
      rw [read_operate (r0_operateAll ops) hx hclears, writesSinceCleared_snoc hclears,
        clearedValue_snoc hclears, lastWrite_append, ih]
      cases lastWrite x op.write?.toList <;> rfl

/-- Every register but R0 shows the last write to it since it was last cleared. Without one it shows
zero, but for Random after a reset. -/
theorem registers_show_last_write (ops : List RegisterOperation) :
    let r := ({} : Registers).operateAll ops
    (∀ i, r.gpr i =
      if i % 32 = 0 then 0
      else
        let x := .gpr (Fin.ofNat 32 i)
        (lastWrite x (writesSinceCleared x ops)).getD 0) ∧
    (∀ i, r.cop0 i =
      let x := .cop0 (Fin.ofNat 32 i)
      (lastWrite x (writesSinceCleared x ops)).getD
        (if i % 32 = Cop0.random ∧ .reset ∈ ops then Cop0.randomMax else 0)) ∧
    r.hi = (lastWrite .hi (writesSinceCleared .hi ops)).getD 0 ∧
    r.lo = (lastWrite .lo (writesSinceCleared .lo ops)).getD 0 ∧
    r.pc = (lastWrite .pc (writesSinceCleared .pc ops)).getD 0 ∧
    (∀ w x, (r.write w).read x = if x ≠ .r0 ∧ w.target = x then w.value else r.read x) ∧
    (∀ i : Fin 32, r.snapshot.gpr[i] = r.gpr i ∧ r.snapshot.cop0[i] = r.cop0 i) ∧
    r.snapshot.hi = r.hi ∧ r.snapshot.lo = r.lo ∧ r.snapshot.pc = r.pc := by
  intro r
  have hshow {x : Register} (hx : x ≠ .r0) :
      r.read x = (lastWrite x (writesSinceCleared x ops)).getD (clearedValue x ops) :=
    read_operateAll hx ops
  refine ⟨fun i => ?_, fun i => ?_, hshow (x := .hi) (by decide), hshow (x := .lo) (by decide),
    hshow (x := .pc) (by decide), fun w x => ?_,
    fun i => ⟨gpr_snapshot r i, cop0_snapshot r i⟩, rfl, rfl, rfl⟩
  · rw [gpr_eq_read]
    split
    · rename_i hzero
      have hr0 : Register.gpr (Fin.ofNat 32 i) = .r0 := congrArg Register.gpr (Fin.ext hzero)
      rw [hr0]
      exact r0_operateAll ops
    · rename_i hi
      exact hshow fun hr0 => hi (congrArg Fin.val (Register.gpr.inj hr0))
  · rw [cop0_eq_read]
    exact hshow (by simp [Register.r0])
  · by_cases hx : x = .r0
    · simp only [hx, ne_eq, not_true_eq_false, false_and, if_false]
      exact r0_write r w
    · simp only [hx, ne_eq, not_false_eq_true, true_and]
      exact read_write r w hx

end Registers

end ConsoleCore
