import ConsoleCore.Registers

/-!
# Registers by name

The register file keeps in every register what was last written to it, except for R0, where no
write arrives.
-/

namespace ConsoleCore

/-! ## The registers -/

inductive Register where
  | gpr (i : Fin 32)
  | cop0 (i : Fin 32)
  | hi
  | lo
  | pc
  deriving DecidableEq, Repr

def Register.r0 : Register := .gpr 0

def Registers.read (r : Registers) : Register → UInt64
  | .gpr i => r.gpr i
  | .cop0 i => r.cop0 i
  | .hi => r.hi
  | .lo => r.lo
  | .pc => r.pc

/-! ## The last write -/

namespace RegisterWrite

def target : RegisterWrite → Register
  | gpr i _ => .gpr (Fin.ofNat 32 i)
  | cop0 i _ => .cop0 (Fin.ofNat 32 i)
  | hi _ => .hi
  | lo _ => .lo
  | pc _ => .pc

def value : RegisterWrite → UInt64
  | gpr _ v | cop0 _ v | hi v | lo v | pc v => v

@[simp] theorem target_gpr_iff (j : Nat) (v : UInt64) (i : Fin 32) :
    (gpr j v).target = .gpr i ↔ j % 32 = i := by
  simp only [target, Register.gpr.injEq, Fin.ext_iff, Fin.val_ofNat]

@[simp] theorem target_cop0_iff (j : Nat) (v : UInt64) (i : Fin 32) :
    (cop0 j v).target = .cop0 i ↔ j % 32 = i := by
  simp only [target, Register.cop0.injEq, Fin.ext_iff, Fin.val_ofNat]

end RegisterWrite

def lastWrite (x : Register) (ws : List RegisterWrite) : Option UInt64 :=
  (ws.reverse.find? fun w => w.target = x).map RegisterWrite.value

theorem lastWrite_cons (x : Register) (w : RegisterWrite) (ws : List RegisterWrite) :
    lastWrite x (w :: ws) =
      (lastWrite x ws).or (if w.target = x then some w.value else none) := by
  unfold lastWrite
  rw [List.reverse_cons, List.find?_append, Option.map_or]
  congr 1
  by_cases h : w.target = x <;> simp [h]

theorem lastWrite_append (x : Register) (ws vs : List RegisterWrite) :
    lastWrite x (ws ++ vs) = (lastWrite x vs).or (lastWrite x ws) := by
  unfold lastWrite
  rw [List.reverse_append, List.find?_append, Option.map_or]

theorem lastWrite_of_target_ne {x : Register} {ws : List RegisterWrite}
    (h : ∀ w ∈ ws, w.target ≠ x) : lastWrite x ws = none := by
  unfold lastWrite
  rw [Option.map_eq_none_iff, List.find?_eq_none]
  intro w hw
  rw [decide_eq_true_iff]
  exact h w (List.mem_reverse.mp hw)

/-- In a table that names no register twice, the last write to a register is its entry. -/
theorem lastWrite_gprs {table : List (Nat × UInt64)} (hkeys : (table.map Prod.fst).Nodup)
    (hsmall : ∀ k ∈ table.map Prod.fst, k < 32) (i : Fin 32) :
    lastWrite (.gpr i) (table.map fun p => .gpr p.1 p.2) =
      table.lookup (i : Nat) := by
  induction table with
  | nil => rfl
  | cons p table ih =>
    obtain ⟨k, v⟩ := p
    rw [List.map_cons, List.nodup_cons] at hkeys
    rw [List.map_cons, List.forall_mem_cons] at hsmall
    have htarget : (RegisterWrite.gpr k v).target = .gpr i ↔ (i : Nat) = k := by
      rw [RegisterWrite.target_gpr_iff, Nat.mod_eq_of_lt hsmall.1, eq_comm]
    rw [List.map_cons, lastWrite_cons, ih hkeys.2 hsmall.2, List.lookup_cons]
    by_cases hi : (i : Nat) = k
    · have hnone : table.lookup (i : Nat) = none := by
        rw [List.lookup_eq_none_iff]
        intro p hmem
        rw [bne_iff_ne, hi]
        intro hp
        exact hkeys.1 (List.mem_map.mpr ⟨p, hmem, hp.symm⟩)
      rw [if_pos (htarget.mpr hi), hnone, beq_iff_eq.mpr hi]
      rfl
    · rw [if_neg (mt htarget.mp hi), Option.or_none, beq_eq_false_iff_ne.mpr hi]

namespace Registers

theorem read_write (r : Registers) (w : RegisterWrite) {x : Register} (hx : x ≠ .r0) :
    (r.write w).read x = if w.target = x then w.value else r.read x := by
  cases w with
  | gpr j v =>
    cases x with
    | gpr i =>
      have hi : (i : Nat) ≠ 0 := fun h => hx (congrArg Register.gpr (Fin.ext h))
      have hmod : (i : Nat) % 32 = i := Nat.mod_eq_of_lt i.isLt
      simp only [write, read, gpr_setGpr, RegisterWrite.target_gpr_iff, hmod]
      have hiff : j % 32 = i ∧ j % 32 ≠ 0 ↔ j % 32 = i := by omega
      simp only [hiff]
      rfl
    | cop0 i => exact cop0_setGpr r i j v
    | hi | lo | pc =>
      simp only [write, read, setGpr]
      split <;> rfl
  | cop0 j v =>
    cases x with
    | cop0 i =>
      have hmod : (i : Nat) % 32 = i := Nat.mod_eq_of_lt i.isLt
      simp only [write, read, cop0_setCop0, RegisterWrite.target_cop0_iff, hmod]
      rfl
    | gpr | hi | lo | pc => rfl
  | hi v => cases x <;> rfl
  | lo v => cases x <;> rfl
  | pc v => cases x <;> rfl

theorem read_writeAll (r : Registers) (ws : List RegisterWrite) {x : Register} (hx : x ≠ .r0) :
    (r.writeAll ws).read x = (lastWrite x ws).getD (r.read x) := by
  induction ws generalizing r with
  | nil => rfl
  | cons w ws ih =>
    rw [writeAll_cons, ih, read_write r w hx, lastWrite_cons]
    cases lastWrite x ws with
    | some v => rfl
    | none => split <;> rfl

theorem r0_write (r : Registers) (w : RegisterWrite) : (r.write w).read .r0 = r.read .r0 := by
  cases w with
  | gpr j v =>
    have h0 : ¬ (j % 32 = 0 % 32 ∧ j % 32 ≠ 0) := by omega
    exact (gpr_setGpr r j 0 v).trans (if_neg h0)
  | cop0 | hi | lo | pc => rfl

theorem r0_writeAll (r : Registers) (ws : List RegisterWrite) :
    (r.writeAll ws).read .r0 = r.read .r0 := by
  induction ws generalizing r with
  | nil => rfl
  | cons w ws ih => rw [writeAll_cons, ih, r0_write]

theorem read_write_congr {r r' : Registers} {x : Register} (h : r.read x = r'.read x)
    (w : RegisterWrite) : (r.write w).read x = (r'.write w).read x := by
  by_cases hx : x = .r0
  · subst hx
    rw [r0_write, r0_write, h]
  · rw [read_write r w hx, read_write r' w hx, h]

theorem read_setCop0_of_ne {i : Nat} {x : Register} (hx : x ≠ .cop0 (Fin.ofNat 32 i))
    (r : Registers) (v : UInt64) : (r.setCop0 i v).read x = r.read x := by
  cases x with
  | cop0 j =>
    apply cop0_setCop0_of_ne
    intro h
    apply hx
    rw [Nat.mod_eq_of_lt j.isLt] at h
    simp [Fin.ext_iff, h]
  | gpr | hi | lo | pc => rfl

theorem clearZero_eq_self {r : Registers} (hzero : r.read .r0 = 0) : r.clearZero = r := by
  obtain ⟨gprs, hi, lo, pc, cop0s⟩ := r
  have hzero : gprs[0] = 0 := hzero
  simp [clearZero, Bank.write, ← hzero]

theorem read_clearZero {r : Registers} (hzero : r.read .r0 = 0) (x : Register) :
    r.clearZero.read x = r.read x := by
  rw [clearZero_eq_self hzero]

end Registers

end ConsoleCore
