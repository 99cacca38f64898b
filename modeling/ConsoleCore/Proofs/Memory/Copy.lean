import ConsoleCore.Proofs.Memory

/-!
# Copies that overlap

A copy goes byte by byte and can read what it has written itself. What arrives depends on how far
the target lies ahead of the source, counted around the memory: that many bytes are original, and
then the copy repeats them.
-/

namespace ConsoleCore

variable {σ : Type}

theorem physical_source_eq_iff (source target : UInt32) (i j : Nat) :
    physical (source + UInt32.ofNat j) = physical (target + UInt32.ofNat i) ↔
      (physical (target - source) + i) % 0x20000000 = j % 0x20000000 := by
  rw [physical_add, physical_add]
  unfold physical
  rw [UInt32.toNat_sub]
  have hsource := source.toNat_lt
  omega

namespace Memory

variable {m : Memory σ} {memory : σ → SparseMemory} {s t : σ} {source target length : UInt32}
  {n : Nat}

/-- The state `t` after `n` bytes, next to the state `s` before the first. -/
structure Copied (m : Memory σ) (memory : σ → SparseMemory) (s : σ) (source target : UInt32)
    (n : Nat) (t : σ) : Prop where
  mask : (memory t).mask = 0x1fffffff
  inside : ∀ i < n, m.readByte t (target + UInt32.ofNat i) =
    m.readByte s (source + UInt32.ofNat (i % physical (target - source)))
  outside : ∀ a, (∀ i < n, physical a ≠ physical (target + UInt32.ofNat i)) →
    m.readByte t a = m.readByte s a

theorem Copied.readByte_source (h : m.BackedBy memory) (ht : m.Copied memory s source target n t)
    (hn : n < 0x20000000) :
    m.readByte t (source + UInt32.ofNat n) =
      m.readByte s (source + UInt32.ofNat (n % physical (target - source))) := by
  have hd : physical (target - source) < 0x20000000 := Nat.mod_lt _ (by decide)
  rcases Nat.lt_or_ge n (physical (target - source)) with hahead | hbehind
  · rw [Nat.mod_eq_of_lt hahead]
    apply ht.outside
    intro i hi
    rw [ne_eq, physical_source_eq_iff]
    omega
  · rcases Nat.eq_zero_or_pos (physical (target - source)) with hzero | hpos
    -- Source and target are the same, and the copy has not come to this byte yet.
    · rw [hzero, Nat.mod_zero]
      apply ht.outside
      intro i hi
      rw [ne_eq, physical_source_eq_iff, hzero]
      omega
    · have hsame : physical (source + UInt32.ofNat n) =
          physical (target + UInt32.ofNat (n - physical (target - source))) := by
        rw [physical_source_eq_iff]
        omega
      rw [h.readByte_congr ht.mask hsame, ht.inside _ (by omega), ← Nat.mod_eq_sub_mod hbehind]

theorem Copied.copyByte (h : m.BackedBy memory) (ht : m.Copied memory s source target n t)
    (hn : n < 0x20000000) :
    m.Copied memory s source target (n + 1)
      (m.copyByte t (source + UInt32.ofNat n) (target + UInt32.ofNat n)) := by
  unfold Memory.copyByte
  constructor
  case mask => exact h.mask_writeByte ht.mask _ _
  case inside =>
    intro i hi
    rw [h.readByte_writeByte ht.mask]
    rcases Nat.lt_succ_iff_lt_or_eq.mp hi with hlt | rfl
    · have hne : physical (target + UInt32.ofNat n) ≠ physical (target + UInt32.ofNat i) := by
        rw [ne_eq, physical_add_inj target hn (by omega)]
        omega
      rw [if_neg hne, ht.inside i hlt]
    · rw [if_pos rfl, ht.readByte_source h hn]
  case outside =>
    intro a ha
    rw [h.readByte_writeByte ht.mask, if_neg (ha n (Nat.lt_succ_self n)).symm]
    exact ht.outside a fun i hi => ha i (Nat.lt_succ_of_lt hi)

theorem BackedBy.copied (h : m.BackedBy memory) (hmask : (memory s).mask = 0x1fffffff)
    (source target : UInt32) {length : UInt32} (hlength : length ≤ 0x20000000) :
    m.Copied memory s source target length.toNat (m.copy s source target length) := by
  apply copy_induction
  · exact ⟨hmask, fun i hi => absurd hi (Nat.not_lt_zero i), fun a _ => rfl⟩
  · intro i hi t ht
    have hmax : (0x20000000 : UInt32).toNat = 0x20000000 := rfl
    rw [UInt32.le_iff_toNat_le] at hlength
    exact ht.copyByte h (by omega)

theorem Copied.of_memory (h : m.BackedBy memory) {t' : σ} (ht : m.Copied memory s source target n t)
    (heq : memory t' = memory t) : m.Copied memory s source target n t' := by
  have hread (a : UInt32) : m.readByte t' a = m.readByte t a := by
    rw [h.readByte, h.readByte, heq]
  constructor
  case mask => rw [heq, ht.mask]
  case inside =>
    intro i hi
    rw [hread, ht.inside i hi]
  case outside =>
    intro a ha
    rw [hread, ht.outside a ha]

/-! ## The whole copy -/

/-- If the target begins within the source and after its first byte, the bytes in between are
repeated over the whole target. Otherwise the target becomes what the source was. -/
theorem copy_repeats_from_overlap (h : m.BackedBy memory) (s : σ)
    (hmask : (memory s).mask = 0x1fffffff) (source target length : UInt32)
    (hlength : length ≤ 0x20000000) :
    let d := physical (target - source)
    let t := m.copy s source target length
    (∀ i < length.toNat, d = 0 ∨ length.toNat ≤ d →
      m.readByte t (target + UInt32.ofNat i) = m.readByte s (source + UInt32.ofNat i)) ∧
    (∀ i < length.toNat, 0 < d ∧ d < length.toNat →
      m.readByte t (target + UInt32.ofNat i) = m.readByte s (source + UInt32.ofNat (i % d))) ∧
    ∀ a, (∀ i < length.toNat, physical a ≠ physical (target + UInt32.ofNat i)) →
      m.readByte t a = m.readByte s a := by
  intro d t
  have hcopied : m.Copied memory s source target length.toNat t :=
    h.copied hmask source target hlength
  refine ⟨fun i hi hd => ?_, fun i hi _ => hcopied.inside i hi, hcopied.outside⟩
  have hmod : i % d = i := by
    rcases hd with hd | hd
    · rw [hd, Nat.mod_zero]
    · exact Nat.mod_eq_of_lt (Nat.lt_of_lt_of_le hi hd)
  have hinside := hcopied.inside i hi
  rwa [hmod] at hinside

end Memory

namespace TestBoard

/-- The source lies across the last address. A copy three bytes ahead repeats it, a copy one byte
back does not. -/
theorem copy_repeats_three_bytes :
    let b := memoryAccess.load {} 0xfffffffe [1, 2, 3]
    let ahead := memoryAccess.copy b 0xfffffffe 0x80000001 7
    let back := memoryAccess.copy b 0xfffffffe 0x1ffffffd 3
    (∀ i < 7, memoryAccess.readByte ahead (0x80000001 + UInt32.ofNat i) =
      UInt8.ofNat (i % 3 + 1)) ∧
    memoryAccess.readByte ahead 0xa0000000 = 3 ∧
    ∀ i < 3, memoryAccess.readByte back (0x1ffffffd + UInt32.ofNat i) = UInt8.ofNat (i + 1) := by
  intro b ahead back
  have hsource (i : Nat) (hi : i < 3) :
      memoryAccess.readByte b (0xfffffffe + UInt32.ofNat i) = UInt8.ofNat (i + 1) := by
    have hroom : 0 + [(1 : UInt8), 2, 3].length ≤ 3 := by decide
    have hread := (backedBy.keepsApart 0xfffffffe (by decide)).read_load (s := {}) rfl hroom hi
    obtain rfl | rfl | rfl : i = 0 ∨ i = 1 ∨ i = 2 := by omega
    all_goals exact hread
  have hahead : physical (0x80000001 - 0xfffffffe) = 3 := by decide
  have hback : (3 : UInt32).toNat ≤ physical (0x1ffffffd - 0xfffffffe) := by decide
  obtain ⟨-, hrepeated, houtside⟩ :=
    Memory.copy_repeats_from_overlap backedBy b rfl 0xfffffffe 0x80000001 7 (by decide)
  obtain ⟨hfaithful, -, -⟩ :=
    Memory.copy_repeats_from_overlap backedBy b rfl 0xfffffffe 0x1ffffffd 3 (by decide)
  rw [hahead] at hrepeated
  refine ⟨fun i hi => ?_, ?_, fun i hi => ?_⟩
  · rw [hrepeated i hi ⟨by decide, by decide⟩]
    exact hsource (i % 3) (Nat.mod_lt i (by decide))
  · have hout (i : Nat) (hi : i < 7) : physical 0xa0000000 ≠ physical (0x80000001 + .ofNat i) := by
      have hphysical : physical 0xa0000000 = 0 ∧ physical 0x80000001 = 1 := by decide
      rw [physical_add]
      omega
    have hlast : physical 0xa0000000 = physical (0xfffffffe + .ofNat 2) := by decide
    rw [houtside 0xa0000000 hout, backedBy.readByte_congr rfl hlast]
    exact hsource 2 (by decide)
  · exact (hfaithful i hi (Or.inr hback)).trans (hsource i hi)

end TestBoard

end ConsoleCore
