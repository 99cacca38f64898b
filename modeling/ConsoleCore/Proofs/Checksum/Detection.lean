import ConsoleCore.Proofs.Checksum
import ConsoleCore.Proofs.Memory

/-!
# Four adjacent bytes of a memory

Any four adjacent bytes of a range settle its checksum, and the checksum settles them. So it detects
every change of these bytes alone.
-/

namespace ConsoleCore

namespace Memory

variable {σ : Type} {m : Memory σ} {I : σ → Prop} {start length : UInt32} {s s' : σ} {p : Nat}

/-! ## Four bytes that are loaded -/

theorem KeepsApart.read_load_four (h : m.KeepsApart I start length.toNat) (hs : I s)
    (hp : p + 4 ≤ length.toNat) (bytes : Vector UInt8 4) {i : Nat} (hi : i < length.toNat) :
    m.readByte (m.load s (start + UInt32.ofNat p) bytes.toList) (start + UInt32.ofNat i) =
      patch (m.readByte s) (start + UInt32.ofNat p) bytes (start + UInt32.ofNat i) := by
  have hlength := length.toNat_lt
  have hfour : p + bytes.toList.length ≤ length.toNat := by
    rw [Vector.length_toList]
    exact hp
  have hoffset := toNat_offset start (i := i) (p := p) (by unfold UInt32.size; omega)
    (by unfold UInt32.size; omega)
  rw [h.read_load hs hfour hi]
  unfold UInt32.size at hoffset
  by_cases hbefore : i < p
  · rw [if_neg (by omega)] at hoffset
    rw [if_pos hbefore, patch_of_le (by omega)]
  · rw [if_pos (by omega)] at hoffset
    unfold patch
    rw [if_neg hbefore, hoffset, Vector.getElem?_toList]

theorem KeepsApart.checksum_load_four (h : m.KeepsApart I start length.toNat) (hs : I s)
    (hp : p + 4 ≤ length.toNat) (bytes : Vector UInt8 4) :
    checksum (m.readByte (m.load s (start + UInt32.ofNat p) bytes.toList)) start length =
      checksum (patch (m.readByte s) (start + UInt32.ofNat p) bytes) start length := by
  apply checksum_congr
  intro i hi
  exact h.read_load_four hs hp bytes hi

/-! ## Memories that differ in four bytes -/

/-- The bytes of the range are the same, except perhaps for the four from its offset `p` on. -/
def SameButFour (m : Memory σ) (start length : UInt32) (p : Nat) (s s' : σ) : Prop :=
  ∀ i < length.toNat, ¬ (p ≤ i ∧ i < p + 4) →
    m.readByte s' (start + UInt32.ofNat i) = m.readByte s (start + UInt32.ofNat i)

theorem SameButFour.patch_bytesAt (h : m.SameButFour start length p s s')
    (hp : p + 4 ≤ length.toNat) {i : Nat} (hi : i < length.toNat) :
    let address := start + UInt32.ofNat p
    patch (m.readByte s) address (bytesAt (m.readByte s') address) (start + UInt32.ofNat i) =
      m.readByte s' (start + UInt32.ofNat i) := by
  intro address
  have hlength := length.toNat_lt
  have hoffset := toNat_offset start (i := i) (p := p) (by unfold UInt32.size; omega)
    (by unfold UInt32.size; omega)
  unfold UInt32.size at hoffset
  by_cases hin : p ≤ i ∧ i < p + 4
  · have hlt : i - p < 4 := by omega
    have hback : p + (i - p) = i := by omega
    rw [if_pos hin.1] at hoffset
    simp only [patch, bytesAt, address, hoffset, Vector.getElem?_eq_getElem hlt,
      Vector.getElem_ofFn, Option.getD_some, add_ofNat_add, hback]
  · rw [h i hi hin]
    apply patch_of_le
    rw [hoffset]
    split <;> omega

end Memory

variable {σ : Type} {m : Memory σ} {I : σ → Prop} {start length : UInt32} {s : σ} {p : Nat}

/-- Whatever the other bytes of a range hold, each checksum belongs to exactly one value of four
adjacent bytes. -/
theorem checksum_determines_four_bytes (h : m.KeepsApart I start length.toNat) (hs : I s)
    (hp : p + 4 ≤ length.toNat) :
    let sum (t : σ) : UInt32 := checksum (m.readByte t) start length
    let store (bytes : Vector UInt8 4) : σ := m.load s (start + UInt32.ofNat p) bytes.toList
    (Function.Bijective fun bytes => sum (store bytes)) ∧
    (∀ s', m.SameButFour start length p s s' →
      (sum s' = sum s ↔ ∀ i < length.toNat,
        m.readByte s' (start + UInt32.ofNat i) = m.readByte s (start + UInt32.ofNat i))) ∧
    ∀ w, ∃! bytes, sum (store bytes) = w := by
  intro sum store
  have hpatch : (fun bytes => sum (store bytes)) = fun bytes =>
      checksum (patch (m.readByte s) (start + UInt32.ofNat p) bytes) start length :=
    funext (h.checksum_load_four hs hp)
  have hbijective : Function.Bijective fun bytes => sum (store bytes) := by
    rw [hpatch]
    exact checksum_patch_bijective (m.readByte s) start hp
  refine ⟨hbijective, ?_, hbijective.existsUnique⟩
  intro s' hsame
  constructor
  · intro hsum
    -- Either state is its own patch, so equal sums come of equal patches.
    have hself : m.SameButFour start length p s s := fun _ _ _ => rfl
    have hsum_eq {t : σ} (ht : m.SameButFour start length p s t) :
        sum t = sum (store (bytesAt (m.readByte t) (start + UInt32.ofNat p))) := by
      rw [congrFun hpatch]
      exact checksum_congr fun i hi => (ht.patch_bytesAt hp hi).symm
    rw [hsum_eq hsame, hsum_eq hself] at hsum
    have hbytes := hbijective.1 hsum
    intro i hi
    rw [← hsame.patch_bytesAt hp hi, hbytes, hself.patch_bytesAt hp hi]
  · exact checksum_congr

theorem checksum_of_zeros_spoiled_or_chosen :
    let sum (t : SparseMemory) : UInt32 := checksum t.read 0xfffffff0 0x20000000
    let zeros : SparseMemory := {}
    sum (zeros.write 1 0x80) ≠ sum zeros ∧
      ∃! bytes : Vector UInt8 4,
        sum (SparseMemory.access.load zeros 0xfffffffe bytes.toList) = 0xcbf43926 := by
  intro sum zeros
  have happart := SparseMemory.keepsApart 0xfffffff0 (n := (0x20000000 : UInt32).toNat) (by decide)
  obtain ⟨-, hdetect, hreach⟩ :=
    checksum_determines_four_bytes happart (s := zeros) rfl (p := 14) (by decide)
  refine ⟨?_, hreach 0xcbf43926⟩
  have hwrite (i : Nat) (hi : i < (0x20000000 : UInt32).toNat) :
      (zeros.write 1 0x80).read (0xfffffff0 + UInt32.ofNat i) =
        if 17 = i then 0x80 else zeros.read (0xfffffff0 + UInt32.ofNat i) :=
    happart.read_write zeros rfl 17 (by decide) i hi 0x80
  have hsame : SparseMemory.access.SameButFour 0xfffffff0 0x20000000 14 zeros
      (zeros.write 1 0x80) := by
    intro i hi hout
    exact (hwrite i hi).trans (if_neg (by omega))
  intro hsum
  have hbyte := (hdetect _ hsame).mp hsum 17 (by decide)
  have hzero : (0x80 : UInt8) = 0 :=
    calc 0x80 = (zeros.write 1 0x80).read 1 := (hwrite 17 (by decide)).symm
      _ = zeros.read 1 := hbyte
      _ = 0 := SparseMemory.read_empty _ _
  exact absurd hzero (by decide)

end ConsoleCore
