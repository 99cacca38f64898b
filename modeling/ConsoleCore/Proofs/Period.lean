/-!
# Counting round a period

A count modulo a period goes up by one, or back to zero. Any numbers in a row, as many as the
period is long, leave every remainder once.
-/

namespace ConsoleCore

theorem succ_mod {k : Nat} (hk : 0 < k) (n : Nat) :
    (n + 1) % k = if n % k + 1 = k then 0 else n % k + 1 := by
  have hlt : n % k < k := Nat.mod_lt n hk
  rw [← Nat.mod_add_mod]
  split
  · rename_i hlast
    rw [hlast, Nat.mod_self]
  · exact Nat.mod_eq_of_lt (by omega)

/-- The remainders of `i` and the numbers after it, one period long, in some order. -/
theorem perm_range_mod (i k : Nat) :
    ((List.range k).map fun j => (i + j) % k).Perm (List.range k) := by
  induction i with
  | zero =>
    have hsame : ∀ j ∈ List.range k, (0 + j) % k = j := by
      intro j hj
      rw [Nat.zero_add, Nat.mod_eq_of_lt (List.mem_range.mp hj)]
    rw [List.map_congr_left hsame, List.map_id']
  | succ i ih =>
    cases k with
    | zero => exact .nil
    | succ k =>
      -- The first remainder of the row from `i` is the last one of the row from `i + 1`.
      refine List.Perm.trans ?_ ih
      have hlast : (i + 1 + k) % (k + 1) = i % (k + 1) := by
        rw [Nat.add_assoc, Nat.add_comm 1 k, Nat.add_mod_right]
      have hshift : ∀ j, (i + 1 + j) % (k + 1) = (i + (j + 1)) % (k + 1) := by
        intro j
        rw [Nat.add_assoc, Nat.add_comm 1 j]
      rw [List.range_succ, List.map_append, List.map_singleton, hlast, ← List.range_succ,
        List.range_succ_eq_map, List.map_cons, List.map_map]
      simp only [Function.comp_def, Nat.succ_eq_add_one, Nat.add_zero, hshift]
      exact List.perm_append_singleton _ _

end ConsoleCore
