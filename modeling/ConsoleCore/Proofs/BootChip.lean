import ConsoleCore.BootChip
import ConsoleCore.Proofs.Checksum

/-!
# What a boot chip is recognised by

Each revision is known by the checksum of one window of the boot code. No two share theirs, so four
adjacent bytes of the window are settled by the revision and the bytes around them.
-/

namespace ConsoleCore

/-! ## The table -/

namespace BootChip

def window : BootChip → UInt32
  | nus5101 => Fingerprint.shortLength
  | _ => Fingerprint.longLength

theorem longChecksums_injective :
    ∀ p ∈ longChecksums, ∀ q ∈ longChecksums, p.2 = q.2 → p.1 = q.1 := by decide

theorem nus5101_not_mem_longChecksums : nus5101 ∉ longChecksums.map Prod.snd := by decide

theorem mem_of_lookup {x : UInt32} {chip : BootChip} (h : longChecksums.lookup x = some chip) :
    (x, chip) ∈ longChecksums := by
  obtain ⟨l₁, l₂, htable, -⟩ := List.lookup_eq_some_iff.mp h
  rw [htable]
  exact List.mem_append_right l₁ List.mem_cons_self

theorem exists_longChecksum {chip : BootChip} (h : chip ≠ nus5101) :
    ∃ x, longChecksums.lookup x = some chip := by
  have hall : ∀ p ∈ longChecksums, longChecksums.lookup p.1 = some p.2 := by decide
  have hmem : chip ∈ longChecksums.map Prod.snd := by
    cases chip with
    | nus5101 => exact absurd rfl h
    | _ => decide
  obtain ⟨p, hp, rfl⟩ := List.mem_map.mp hmem
  exact ⟨p.1, hall p hp⟩

end BootChip

namespace Fingerprint

theorem chip?_eq_nus5101_iff (f : Fingerprint) :
    f.chip? = some .nus5101 ↔ f.short = BootChip.aleck64Checksum := by
  unfold chip?
  split
  · simp [*]
  · rename_i hshort
    simp only [hshort, iff_false]
    intro h
    exact BootChip.nus5101_not_mem_longChecksums
      (List.mem_map_of_mem (BootChip.mem_of_lookup h))

theorem chip?_eq_some_iff (f : Fingerprint) {chip : BootChip} (h : chip ≠ .nus5101) :
    f.chip? = some chip ↔
      f.short ≠ BootChip.aleck64Checksum ∧ BootChip.longChecksums.lookup f.long = some chip := by
  unfold chip?
  split
  · simp [*, h.symm]
  · simp [*]

theorem checksum_eq_of_chip? {read read' : UInt32 → UInt8} {chip : BootChip}
    (h : (ofMemory read).chip? = some chip) (h' : (ofMemory read').chip? = some chip) :
    checksum read start chip.window = checksum read' start chip.window := by
  by_cases hchip : chip = .nus5101
  · subst hchip
    rw [chip?_eq_nus5101_iff] at h h'
    exact h.trans h'.symm
  · rw [chip?_eq_some_iff _ hchip] at h h'
    have hwindow : chip.window = longLength := by
      cases chip with
      | nus5101 => exact absurd rfl hchip
      | _ => rfl
    rw [hwindow]
    exact BootChip.longChecksums_injective _ (BootChip.mem_of_lookup h.2)
      _ (BootChip.mem_of_lookup h'.2) rfl

/-! ## Four adjacent bytes -/

variable {read : UInt32 → UInt8} {p : Nat} {chip : BootChip}

theorem eq_of_chip?_patch (hp : p + 4 ≤ chip.window.toNat) {v v' : Vector UInt8 4}
    (h : (ofMemory (patch read (start + UInt32.ofNat p) v)).chip? = some chip)
    (h' : (ofMemory (patch read (start + UInt32.ofNat p) v')).chip? = some chip) : v = v' :=
  (checksum_patch_bijective read start hp).1 (checksum_eq_of_chip? h h')

theorem existsUnique_patch_nus5101 (hp : p + 4 ≤ shortLength.toNat) :
    ∃! v, (ofMemory (patch read (start + UInt32.ofNat p) v)).chip? = some .nus5101 := by
  obtain ⟨v, hv⟩ := (checksum_patch_bijective read start hp).2 BootChip.aleck64Checksum
  have hchip : (ofMemory (patch read (start + UInt32.ofNat p) v)).chip? = some .nus5101 :=
    (chip?_eq_nus5101_iff _).mpr hv
  exact ⟨v, hchip, fun v' h' => eq_of_chip?_patch hp h' hchip⟩

theorem existsUnique_patch (hlow : shortLength.toNat ≤ p) (hp : p + 4 ≤ longLength.toNat)
    (hchip : chip ≠ .nus5101) (hshort : (ofMemory read).short ≠ BootChip.aleck64Checksum) :
    ∃! v, (ofMemory (patch read (start + UInt32.ofNat p) v)).chip? = some chip := by
  have hlong : longLength.toNat = 0xfc0 := rfl
  obtain ⟨x, hx⟩ := BootChip.exists_longChecksum hchip
  obtain ⟨v, hv⟩ := (checksum_patch_bijective read start hp).2 x
  have hsame : (ofMemory (patch read (start + UInt32.ofNat p) v)).short = (ofMemory read).short :=
    checksum_patch_of_le read start hlow (by unfold UInt32.size; omega) v
  have hv : (ofMemory (patch read (start + UInt32.ofNat p) v)).chip? = some chip := by
    refine (chip?_eq_some_iff _ hchip).mpr ⟨by rw [hsame]; exact hshort, ?_⟩
    rw [← hx, ← hv]
    rfl
  have hwindow : p + 4 ≤ chip.window.toNat := by
    cases chip with
    | nus5101 => exact absurd rfl hchip
    | _ => exact hp
  exact ⟨v, hv, fun v' h' => eq_of_chip?_patch hwindow h' hv⟩

/-- The memories differ, and only in the `k` bytes from offset `p` of the boot code on. -/
def DifferWithin (p k : Nat) (read read' : UInt32 → UInt8) : Prop :=
  read ≠ read' ∧ ∀ a, ¬ (p ≤ (a - start).toNat ∧ (a - start).toNat < p + k) → read a = read' a

theorem chip?_ne_of_differWithin {read' : UInt32 → UInt8} {k : Nat} (hk : k ≤ 4)
    (hp : p + k ≤ chip.window.toNat) (h : (ofMemory read).chip? = some chip)
    (hdiffer : DifferWithin p k read read') : (ofMemory read').chip? ≠ (ofMemory read).chip? := by
  obtain ⟨hne, hsame⟩ := hdiffer
  have hroom : 4 ≤ chip.window.toNat := by cases chip <;> decide
  have hsize := chip.window.toNat_lt
  -- Fewer than four bytes at the end of the window are part of its last four.
  obtain ⟨q, hq, hfirst, hlast⟩ : ∃ q, q + 4 ≤ chip.window.toNat ∧ q ≤ p ∧ p + k ≤ q + 4 :=
    ⟨min p (chip.window.toNat - 4), by omega, by omega, by omega⟩
  have houtside : ∀ a, 4 ≤ (a - (start + UInt32.ofNat q)).toNat → read' a = read a := by
    intro a ha
    refine (hsame a ?_).symm
    rintro ⟨hle, hlt⟩
    have hbound : chip.window.toNat ≤ 0xfc0 := by cases chip <;> decide
    have hstart := start.toNat_lt
    rw [UInt32.toNat_sub] at hle hlt
    rw [UInt32.toNat_sub, UInt32.toNat_add, UInt32.toNat_ofNat'] at ha
    omega
  have hread : patch read (start + UInt32.ofNat q) (bytesAt read _) = read :=
    patch_bytesAt fun _ _ => rfl
  have hread' : patch read (start + UInt32.ofNat q) (bytesAt read' _) = read' :=
    patch_bytesAt houtside
  intro h'
  rw [h, ← hread'] at h'
  rw [← hread] at h
  have hbytes := eq_of_chip?_patch hq h h'
  exact hne (by rw [← hread, hbytes, hread'])

/-! ## The boot code and its chip -/

/-- Whatever the rest of the memory holds, at most one value of four adjacent bytes of a window
gives a cartridge of its revision. So no change of up to four of them goes unnoticed. -/
theorem four_bytes_settle_the_chip (read : UInt32 → UInt8) (p : Nat) (chip : BootChip) :
    let chipWith (bytes : Vector UInt8 4) : Option BootChip :=
      (ofMemory (patch read (start + UInt32.ofNat p) bytes)).chip?
    (p + 4 ≤ chip.window.toNat → ∀ v v', chipWith v = some chip → chipWith v' = some chip →
      v = v') ∧
    (p + 4 ≤ 0xbc0 → ∃! v, chipWith v = some .nus5101) ∧
    (0xbc0 ≤ p → p + 4 ≤ 0xfc0 → chip ≠ .nus5101 →
      checksum read 0x10000040 0xbc0 ≠ BootChip.aleck64Checksum →
      ∃! v, chipWith v = some chip) ∧
    ∀ k read', k ≤ 4 → p + k ≤ chip.window.toNat → DifferWithin p k read read' →
      (ofMemory read).chip? = some chip → (ofMemory read').chip? ≠ (ofMemory read).chip? := by
  refine ⟨?_, ?_, ?_, ?_⟩
  · intro hp v v' hv hv'
    exact eq_of_chip?_patch hp hv hv'
  · exact existsUnique_patch_nus5101
  · exact existsUnique_patch
  · intro k read' hk hp hdiffer h
    exact chip?_ne_of_differWithin hk hp h hdiffer

/-- The last word of the short window makes an empty memory an Aleck64, and the last word of the
long one makes it an iQue. -/
theorem empty_memory_becomes_aleck64_and_iQue :
    ∃ v,
      let aleck64 := patch (fun _ => 0) (start + UInt32.ofNat 0xbbc) v
      let spoiled : UInt32 → UInt8 := fun a => if a = start then 1 else aleck64 a
      (ofMemory aleck64).chip? = some .nus5101 ∧ (ofMemory spoiled).chip? ≠ some .nus5101 ∧
        ∃! w, (ofMemory (patch spoiled (start + UInt32.ofNat 0xfbc) w)).chip? = some .iQue3 := by
  obtain ⟨v, hv, -⟩ := (four_bytes_settle_the_chip (fun _ => 0) 0xbbc .nus5101).2.1 (by decide)
  refine ⟨v, ?_⟩
  intro aleck64 spoiled
  have hfirst : aleck64 start = 0 := patch_of_le (by decide)
  have hdiffer : DifferWithin 0 1 aleck64 spoiled := by
    refine ⟨fun h => ?_, fun a ha => ?_⟩
    · have hbyte : aleck64 start = 1 := by rw [h]; exact if_pos rfl
      rw [hfirst] at hbyte
      exact absurd hbyte (by decide)
    · refine (if_neg ?_).symm
      rintro rfl
      exact ha ⟨by decide, by decide⟩
  have hspoiled : (ofMemory spoiled).chip? ≠ some .nus5101 := by
    rw [← hv]
    exact (four_bytes_settle_the_chip aleck64 0 .nus5101).2.2.2 1 spoiled (by decide) (by decide)
      hdiffer hv
  have hshort : checksum spoiled 0x10000040 0xbc0 ≠ BootChip.aleck64Checksum := fun h =>
    hspoiled ((chip?_eq_nus5101_iff _).mpr h)
  exact ⟨hv, hspoiled, (four_bytes_settle_the_chip spoiled 0xfbc .iQue3).2.2.1 (by decide)
    (by decide) (by decide) hshort⟩

end Fingerprint

end ConsoleCore
