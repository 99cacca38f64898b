import ConsoleCore.BootState
import ConsoleCore.Proofs.Registers

/-!
# The boot state, register by register

The writes of a reset leave nothing to chance: every register has one value, which follows from
the settings, the television standard and the seed.
-/

namespace ConsoleCore.BootState

variable (settings : Settings) (tv : TvStandard) (seed : UInt32)

/-- What the boot code finds in a general purpose register. -/
def gprValue : Nat → UInt64
  | 19 => settings.medium.code.toUInt64
  | 20 => tv.code.toUInt64
  | 21 => settings.resetKind.code.toUInt64
  | 22 => ((seed >>> 8) &&& 0xff).toUInt64
  | 23 => settings.osVersion.toUInt64
  | i => (fixedRegisters.lookup i).getD 0

def value : Register → UInt64
  | .gpr i => gprValue settings tv seed i
  | .cop0 i => if (i : Nat) = 1 then 0x1f else 0
  | .hi => 0x3fc18657
  | .lo => 0x3103e121
  | .pc => 0xa4000040

/-! ## The writes as a table -/

def parameters : List (Nat × UInt64) := [
  (mediumRegister, settings.medium.code.toUInt64),
  (tvRegister, tv.code.toUInt64),
  (resetKindRegister, settings.resetKind.code.toUInt64),
  (seedRegister, (seedByte seed).toUInt64),
  (osVersionRegister, settings.osVersion.toUInt64)]

theorem writes_eq :
    writes settings tv seed =
      (fixedRegisters ++ parameters settings tv seed).map (fun p => .gpr p.1 p.2) ++
        [.hi hi, .lo lo, .pc pc] := rfl

theorem lastWrite_gpr_writes (i : Fin 32) :
    lastWrite (.gpr i) (writes settings tv seed) =
      (fixedRegisters ++ parameters settings tv seed).lookup (i : Nat) := by
  have hkeys : ((fixedRegisters ++ parameters settings tv seed).map Prod.fst).Nodup := by
    change (List.map Prod.fst fixedRegisters ++ [19, 20, 21, 22, 23]).Nodup
    decide
  have hsmall : ∀ k ∈ (fixedRegisters ++ parameters settings tv seed).map Prod.fst, k < 32 := by
    change ∀ k ∈ List.map Prod.fst fixedRegisters ++ [19, 20, 21, 22, 23], k < 32
    decide
  rw [writes_eq, lastWrite_append, lastWrite_gprs hkeys hsmall]
  rfl

theorem lookup_eq_gprValue (i : Nat) :
    ((fixedRegisters ++ parameters settings tv seed).lookup i).getD 0 =
      gprValue settings tv seed i := by
  unfold gprValue
  split
  case h_6 h19 h20 h21 h22 h23 =>
    have hnone : (parameters settings tv seed).lookup i = none := by
      rw [List.lookup_eq_none_iff]
      intro p hp
      rw [bne_iff_ne]
      rintro rfl
      simp only [parameters, List.mem_cons, List.not_mem_nil, or_false] at hp
      rcases hp with rfl | rfl | rfl | rfl | rfl
      · exact h19 rfl
      · exact h20 rfl
      · exact h21 rfl
      · exact h22 rfl
      · exact h23 rfl
    rw [List.lookup_append, hnone, Option.or_none]
  all_goals rfl

theorem read_gpr_registers (i : Fin 32) (hi : i ≠ 0) :
    (registers settings tv seed).read (.gpr i) = gprValue settings tv seed i := by
  have hx : Register.gpr i ≠ .r0 := fun h => hi (Register.gpr.inj h)
  have hreset : Registers.atReset.read (.gpr i) = 0 := Registers.gpr_atReset i
  unfold registers
  rw [Registers.read_writeAll _ _ hx, lastWrite_gpr_writes, hreset, lookup_eq_gprValue]

theorem lastWrite_cop0_writes (i : Fin 32) :
    lastWrite (.cop0 i) (writes settings tv seed) = none := by
  rw [writes_eq]
  refine lastWrite_of_target_ne fun w hw => ?_
  rw [List.mem_append, List.mem_map] at hw
  rcases hw with ⟨p, -, rfl⟩ | hw
  · exact Register.noConfusion
  · simp only [List.mem_cons, List.not_mem_nil, or_false] at hw
    rcases hw with rfl | rfl | rfl <;> exact Register.noConfusion

theorem read_registers (x : Register) :
    (registers settings tv seed).read x = value settings tv seed x := by
  cases x with
  | gpr i =>
    by_cases hi : i = 0
    · subst hi
      exact Registers.r0_writeAll _ _
    · exact read_gpr_registers settings tv seed i hi
  | cop0 i =>
    unfold registers
    rw [Registers.read_writeAll _ _ Register.noConfusion, lastWrite_cop0_writes]
    have hreset := Registers.cop0_atReset i
    rwa [Nat.mod_eq_of_lt i.isLt] at hreset
  | hi | lo | pc => rfl

end ConsoleCore.BootState
