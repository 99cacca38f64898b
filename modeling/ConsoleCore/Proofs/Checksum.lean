import Mathlib.Data.FinEnum
import Mathlib.Data.Fintype.EquivFin
import Mathlib.Logic.Function.Iterate
import ConsoleCore.Checksum

/-!
# The algebra of the checksum

A byte moves the state on by a bijection, and four bytes in a row can bring it anywhere. So the
checksum of a range and any four adjacent bytes of the range determine each other.
-/

namespace ConsoleCore.Checksum

/-! ## One bit -/

theorem and_one_eq_one_iff (x : UInt32) : x &&& 1 = 1 ↔ x.toNat % 2 = 1 := by
  rw [← UInt32.toNat_inj, UInt32.toNat_and, UInt32.toNat_one, Nat.and_one_is_mod]

theorem shiftBit_xor (x y : UInt32) : shiftBit (x ^^^ y) = shiftBit x ^^^ shiftBit y := by
  have hodd : (x ^^^ y) &&& 1 = 1 ↔ ¬ (x &&& 1 = 1 ↔ y &&& 1 = 1) := by
    simp only [and_one_eq_one_iff, UInt32.toNat_xor, Nat.xor_mod_two_eq_one]
  unfold shiftBit
  by_cases hx : x &&& 1 = 1 <;> by_cases hy : y &&& 1 = 1
  all_goals simp only [hodd, hx, hy, UInt32.shiftRight_xor, if_true, if_false, not_true,
    not_false_eq_true, iff_true, iff_false, iff_self]
  · rw [UInt32.xor_comm (y >>> 1), UInt32.xor_assoc, ← UInt32.xor_assoc polynomial,
      UInt32.xor_self, UInt32.zero_xor]
  · rw [UInt32.xor_assoc, UInt32.xor_assoc, UInt32.xor_comm (y >>> 1)]
  · rw [UInt32.xor_assoc]

theorem shiftBit_of_even {x : UInt32} (h : x.toNat % 2 = 0) : shiftBit x = x >>> 1 := by
  have hodd : ¬ x &&& 1 = 1 := by rw [and_one_eq_one_iff]; omega
  exact if_neg hodd

theorem toNat_shiftRight_one (x : UInt32) : (x >>> 1).toNat = x.toNat / 2 := by
  rw [UInt32.toNat_shiftRight]
  exact Nat.shiftRight_eq_div_pow x.toNat 1

theorem eq_zero_of_shiftBit {x : UInt32} (h : shiftBit x = 0) : x = 0 := by
  have hlt := x.toNat_lt
  unfold shiftBit at h
  split at h
  · -- The highest bit of the polynomial shows that an odd state was shifted.
    have hpoly : (x >>> 1).toNat = polynomial.toNat := by rw [UInt32.xor_eq_zero_iff.mp h]
    have htop : polynomial.toNat = 0xedb88320 := rfl
    rw [toNat_shiftRight_one] at hpoly
    omega
  · rename_i hodd
    have hhalf : (x >>> 1).toNat = 0 := by rw [h]; rfl
    rw [and_one_eq_one_iff] at hodd
    rw [toNat_shiftRight_one] at hhalf
    rw [← UInt32.toNat_inj, UInt32.toNat_zero]
    omega

/-! ## One byte -/

theorem repeat_shiftBit_xor (n : Nat) (x y : UInt32) :
    Nat.repeat shiftBit n (x ^^^ y) = Nat.repeat shiftBit n x ^^^ Nat.repeat shiftBit n y := by
  induction n with
  | zero => rfl
  | succ n ih => simp only [Nat.repeat, ih, shiftBit_xor]

theorem eq_zero_of_repeat_shiftBit {n : Nat} {x : UInt32} (h : Nat.repeat shiftBit n x = 0) :
    x = 0 := by
  induction n with
  | zero => exact h
  | succ n ih => exact ih (eq_zero_of_shiftBit h)

theorem toNat_repeat_shiftBit {n : Nat} {x : UInt32} (h : 2 ^ n ∣ x.toNat) :
    (Nat.repeat shiftBit n x).toNat = x.toNat / 2 ^ n := by
  induction n with
  | zero => simp [Nat.repeat]
  | succ n ih =>
    have hn : (Nat.repeat shiftBit n x).toNat = x.toNat / 2 ^ n :=
      ih ((Nat.pow_dvd_pow 2 n.le_succ).trans h)
    have heven : (Nat.repeat shiftBit n x).toNat % 2 = 0 := by
      obtain ⟨k, hk⟩ := h
      rw [hn, hk, Nat.pow_succ, Nat.mul_assoc, Nat.mul_div_cancel_left _ (Nat.two_pow_pos n)]
      omega
    change (shiftBit (Nat.repeat shiftBit n x)).toNat = _
    rw [shiftBit_of_even heven, toNat_shiftRight_one, hn, Nat.div_div_eq_div_mul, Nat.pow_succ]

theorem shiftByte_xor (x y : UInt32) : shiftByte (x ^^^ y) = shiftByte x ^^^ shiftByte y :=
  repeat_shiftBit_xor 8 x y

theorem shiftByte_injective : Function.Injective shiftByte := by
  intro x y h
  have hzero : shiftByte (x ^^^ y) = 0 := by rw [shiftByte_xor, h, UInt32.xor_self]
  exact UInt32.xor_eq_zero_iff.mp (eq_zero_of_repeat_shiftBit hzero)

theorem shiftByte_bijective : Function.Bijective shiftByte :=
  Finite.injective_iff_bijective.mp shiftByte_injective

theorem toNat_shiftLeft_eight {x : UInt32} (h : x.toNat < 2 ^ 24) :
    (x <<< 8).toNat = x.toNat * 256 := by
  rw [UInt32.toNat_shiftLeft]
  change (x.toNat <<< 8) % 2 ^ 32 = _
  rw [Nat.shiftLeft_eq]
  omega

theorem toNat_shiftRight_eight (x : UInt32) : (x >>> 8).toNat = x.toNat / 256 := by
  rw [UInt32.toNat_shiftRight]
  exact Nat.shiftRight_eq_div_pow x.toNat 8

theorem shiftByte_shiftLeft {x : UInt32} (h : x.toNat < 2 ^ 24) : shiftByte (x <<< 8) = x := by
  have hleft := toNat_shiftLeft_eight h
  have hdvd : 2 ^ 8 ∣ (x <<< 8).toNat := ⟨x.toNat, by omega⟩
  rw [← UInt32.toNat_inj, shiftByte, toNat_repeat_shiftBit hdvd, hleft]
  omega

theorem lowByte_xor_rest (x : UInt32) : x.toUInt8.toUInt32 ^^^ ((x >>> 8) <<< 8) = x := by
  have hrest : (x >>> 8).toNat < 2 ^ 24 := by
    have := x.toNat_lt
    rw [toNat_shiftRight_eight]
    omega
  rw [← UInt32.toNat_inj, UInt32.toNat_xor, toNat_shiftLeft_eight hrest, toNat_shiftRight_eight]
  have hlow : x.toUInt8.toUInt32.toNat = x.toNat % 2 ^ 8 := by simp
  have hhigh : x.toNat / 256 * 256 = (x.toNat >>> 8) <<< 8 := by
    rw [Nat.shiftLeft_eq, Nat.shiftRight_eq_div_pow]
  rw [hlow, hhigh]
  refine Nat.eq_of_testBit_eq fun i => ?_
  simp only [Nat.testBit_xor, Nat.testBit_mod_two_pow, Nat.testBit_shiftLeft,
    Nat.testBit_shiftRight]
  by_cases hi : i < 8
  · simp [hi, Nat.not_le.mpr hi]
  · have hle : 8 ≤ i := Nat.not_lt.mp hi
    simp [hi, hle, Nat.add_sub_cancel' hle]

theorem fold_eq (c : UInt32) (byte : UInt8) : fold c byte = shiftByte (c ^^^ byte.toUInt32) := by
  have hrest : ((c ^^^ byte.toUInt32) >>> 8).toNat < 2 ^ 24 := by
    have := (c ^^^ byte.toUInt32).toNat_lt
    rw [toNat_shiftRight_eight]
    omega
  have hbyte : byte.toUInt32 >>> 8 = 0 := by
    have := byte.toNat_lt
    rw [← UInt32.toNat_inj, toNat_shiftRight_eight, UInt8.toNat_toUInt32, UInt32.toNat_zero]
    omega
  have htable : table[(c ^^^ byte.toUInt32).toUInt8.toFin] =
      shiftByte (c ^^^ byte.toUInt32).toUInt8.toUInt32 := by
    rw [table_getElem]
    exact congrArg shiftByte (UInt32.ofNat_uInt8ToNat (c ^^^ byte.toUInt32).toUInt8)
  conv_rhs => rw [← lowByte_xor_rest (c ^^^ byte.toUInt32)]
  rw [shiftByte_xor, shiftByte_shiftLeft hrest, UInt32.shiftRight_xor, hbyte, UInt32.xor_zero]
  exact congrArg (· ^^^ c >>> 8) htable

theorem fold_injective (byte : UInt8) : Function.Injective (fold · byte) := by
  intro c d h
  simp only [fold_eq] at h
  exact UInt32.xor_left_inj _ |>.mp (shiftByte_injective h)

/-! ## Four bytes in a row -/

def littleEndian : List UInt8 → Nat
  | [] => 0
  | b :: bs => b.toNat + 256 * littleEndian bs

theorem littleEndian_lt (bs : List UInt8) : littleEndian bs < 256 ^ bs.length := by
  induction bs with
  | nil => simp [littleEndian]
  | cons b bs ih =>
    have hb := b.toNat_lt
    rw [List.length_cons, Nat.pow_succ]
    simp only [littleEndian]
    omega

theorem littleEndian_injective {bs bs' : List UInt8} (hlen : bs.length = bs'.length)
    (h : littleEndian bs = littleEndian bs') : bs = bs' := by
  induction bs generalizing bs' with
  | nil => exact (List.eq_nil_of_length_eq_zero hlen.symm).symm
  | cons b bs ih =>
    obtain _ | ⟨b', bs'⟩ := bs'
    · simp at hlen
    · have hb := b.toNat_lt
      have hb' := b'.toNat_lt
      simp only [littleEndian] at h
      have hhead : b = b' := by rw [← UInt8.toNat_inj]; omega
      rw [hhead, ih (Nat.succ.inj hlen) (by omega)]

theorem exists_littleEndian (n : Nat) {w : Nat} (h : w < 256 ^ n) :
    ∃ bs : List UInt8, bs.length = n ∧ littleEndian bs = w := by
  induction n generalizing w with
  | zero =>
    rw [Nat.pow_zero] at h
    exact ⟨[], rfl, by simp only [littleEndian]; omega⟩
  | succ n ih =>
    rw [Nat.pow_succ] at h
    obtain ⟨bs, hlen, hbs⟩ := ih (w := w / 256) (by omega)
    refine ⟨UInt8.ofNat w :: bs, by rw [List.length_cons, hlen], ?_⟩
    simp only [littleEndian, hbs, UInt8.toNat_ofNat']
    omega

theorem byte_xor_shiftLeft (b : UInt8) {n : Nat} (h : n < 2 ^ 24) :
    b.toUInt32 ^^^ (UInt32.ofNat n <<< 8) = UInt32.ofNat (b.toNat + 256 * n) := by
  have hb := b.toNat_lt
  have hword : (UInt32.ofNat (b.toNat + 256 * n)).toNat = b.toNat + 256 * n :=
    UInt32.toNat_ofNat_of_lt' (by unfold UInt32.size; omega)
  have hlow : (UInt32.ofNat (b.toNat + 256 * n)).toUInt8 = b := by
    rw [← UInt8.toNat_inj, UInt32.toNat_toUInt8, hword]
    omega
  have hrest : UInt32.ofNat (b.toNat + 256 * n) >>> 8 = UInt32.ofNat n := by
    rw [← UInt32.toNat_inj, toNat_shiftRight_eight, hword,
      UInt32.toNat_ofNat_of_lt' (by unfold UInt32.size; omega)]
    omega
  rw [← lowByte_xor_rest (UInt32.ofNat (b.toNat + 256 * n)), hlow, hrest]

/-- As long as a word has room for them, the bytes can all be fed in at once. -/
theorem foldl_fold_eq (c : UInt32) {bs : List UInt8} (h : bs.length ≤ 4) :
    bs.foldl fold c = shiftByte^[bs.length] (c ^^^ UInt32.ofNat (littleEndian bs)) := by
  induction bs generalizing c with
  | nil => simp [littleEndian]
  | cons b bs ih =>
    rw [List.length_cons] at h
    have hrest : littleEndian bs < 2 ^ 24 :=
      calc littleEndian bs < 256 ^ bs.length := littleEndian_lt bs
        _ ≤ 256 ^ 3 := Nat.pow_le_pow_right (by decide) (by omega)
    have hshift : shiftByte (UInt32.ofNat (littleEndian bs) <<< 8) =
        UInt32.ofNat (littleEndian bs) :=
      shiftByte_shiftLeft (by
        rw [UInt32.toNat_ofNat_of_lt' (by unfold UInt32.size; omega)]
        exact hrest)
    have hword := byte_xor_shiftLeft b hrest
    rw [List.foldl_cons, ih _ (by omega), List.length_cons, Function.iterate_succ_apply]
    simp only [littleEndian]
    rw [fold_eq, ← hword, ← UInt32.xor_assoc, shiftByte_xor (c ^^^ b.toUInt32), hshift]

theorem foldl_fold_injective (bs : List UInt8) : Function.Injective (bs.foldl fold) := by
  induction bs with
  | nil => exact Function.injective_id
  | cons b bs ih => exact ih.comp (fold_injective b)

theorem foldl_fold_bijective (bs : List UInt8) : Function.Bijective (bs.foldl fold) :=
  Finite.injective_iff_bijective.mp (foldl_fold_injective bs)

theorem fold_four_bijective (c : UInt32) :
    Function.Bijective fun bytes : Vector UInt8 4 => bytes.toList.foldl fold c := by
  have hlen (bytes : Vector UInt8 4) : bytes.toList.length = 4 := bytes.length_toList
  have hword (bytes : Vector UInt8 4) : bytes.toList.foldl fold c =
      shiftByte^[4] (c ^^^ UInt32.ofNat (littleEndian bytes.toList)) := by
    rw [foldl_fold_eq c (hlen bytes).le, hlen]
  have hshift : Function.Bijective shiftByte^[4] := shiftByte_bijective.iterate 4
  constructor
  · intro v v' h
    simp only [hword] at h
    have hbytes := (UInt32.xor_right_inj _).mp (hshift.1 h)
    have hv := littleEndian_lt v.toList
    have hv' := littleEndian_lt v'.toList
    rw [hlen] at hv hv'
    rw [← UInt32.toNat_inj, UInt32.toNat_ofNat_of_lt' hv, UInt32.toNat_ofNat_of_lt' hv'] at hbytes
    exact Vector.toList_inj.mp (littleEndian_injective ((hlen v).trans (hlen v').symm) hbytes)
  · intro d
    obtain ⟨w, rfl⟩ := hshift.2 d
    obtain ⟨bs, hbs, hw⟩ := exists_littleEndian 4 (c ^^^ w).toNat_lt
    refine ⟨⟨bs.toArray, hbs⟩, (hword _).trans ?_⟩
    change shiftByte^[4] (c ^^^ UInt32.ofNat (littleEndian bs)) = _
    rw [hw, UInt32.ofNat_toNat, ← UInt32.xor_assoc, UInt32.xor_self, UInt32.zero_xor]

end ConsoleCore.Checksum

namespace ConsoleCore

/-! ## Four adjacent bytes of a range -/

def range (read : UInt32 → UInt8) (start length : UInt32) : List UInt8 :=
  (List.range length.toNat).map fun i => read (start + UInt32.ofNat i)

/-- A memory with four bytes replaced, from `address` on. -/
def patch (read : UInt32 → UInt8) (address : UInt32) (bytes : Vector UInt8 4) :
    UInt32 → UInt8 :=
  fun a => (bytes[(a - address).toNat]?).getD (read a)

def bytesAt (read : UInt32 → UInt8) (address : UInt32) : Vector UInt8 4 :=
  Vector.ofFn fun i => read (address + UInt32.ofNat i)

theorem checksum_eq_foldl (read : UInt32 → UInt8) (start length : UInt32) :
    checksum read start length =
      (range read start length).foldl Checksum.fold 0xffffffff ^^^ 0xffffffff := by
  unfold checksum range
  congr 1
  induction length.toNat with
  | zero => rfl
  | succ n ih => simp only [Nat.fold_succ, List.range_succ, List.map_append, List.foldl_append, ih,
      List.map_cons, List.map_nil, List.foldl_cons, List.foldl_nil]

theorem patch_of_le {read : UInt32 → UInt8} {address a : UInt32} {bytes : Vector UInt8 4}
    (h : 4 ≤ (a - address).toNat) : patch read address bytes a = read a := by
  unfold patch
  rw [Vector.getElem?_eq_none h]
  rfl

theorem patch_bytesAt {read read' : UInt32 → UInt8} {address : UInt32}
    (h : ∀ a, 4 ≤ (a - address).toNat → read' a = read a) :
    patch read address (bytesAt read' address) = read' := by
  funext a
  by_cases ha : 4 ≤ (a - address).toNat
  · rw [patch_of_le ha, h a ha]
  · have hlt : (a - address).toNat < 4 := Nat.not_le.mp ha
    have hback : address + UInt32.ofNat (a - address).toNat = a := by
      rw [UInt32.ofNat_toNat, UInt32.add_comm, UInt32.sub_add_cancel]
    simp only [patch, bytesAt, Vector.getElem?_eq_getElem hlt, Vector.getElem_ofFn,
      Option.getD_some, hback]

theorem toNat_offset (start : UInt32) {i p : Nat} (hi : i < UInt32.size) (hp : p < UInt32.size) :
    (start + UInt32.ofNat i - (start + UInt32.ofNat p)).toNat =
      if p ≤ i then i - p else UInt32.size + i - p := by
  have hs := start.toNat_lt
  unfold UInt32.size at *
  rw [UInt32.toNat_sub, UInt32.toNat_add, UInt32.toNat_add, UInt32.toNat_ofNat_of_lt' hi,
    UInt32.toNat_ofNat_of_lt' hp]
  split <;> omega

theorem range_patch (read : UInt32 → UInt8) (start : UInt32) {length : UInt32} {p : Nat}
    (h : p + 4 ≤ length.toNat) (bytes : Vector UInt8 4) :
    range (patch read (start + UInt32.ofNat p) bytes) start length =
      (range read start length).take p ++ bytes.toList ++
        (range read start length).drop (p + 4) := by
  have hlength := length.toNat_lt
  refine List.ext_getElem (by simp [range]; omega) fun i hi _ => ?_
  simp only [range, List.length_map, List.length_range] at hi
  have hoffset := toNat_offset start (i := i) (p := p) (by unfold UInt32.size; omega)
    (by unfold UInt32.size; omega)
  unfold UInt32.size at hoffset
  simp only [range, List.getElem_append, List.getElem_map, List.getElem_range, List.getElem_take,
    List.getElem_drop, List.length_append, List.length_take, List.length_map, List.length_range,
    Vector.length_toList, Nat.min_eq_left (by omega : p ≤ length.toNat)]
  by_cases hbefore : i < p
  · rw [dif_pos (by omega : i < p + 4), dif_pos hbefore]
    exact patch_of_le (by rw [hoffset, if_neg (by omega)]; omega)
  by_cases hin : i < p + 4
  · have hlt : i - p < 4 := by omega
    rw [dif_pos hin, dif_neg hbefore, Vector.getElem_toList]
    unfold patch
    rw [hoffset, if_pos (by omega), Vector.getElem?_eq_getElem hlt, Option.getD_some]
  · rw [dif_neg hin, show p + 4 + (i - (p + 4)) = i by omega]
    exact patch_of_le (by rw [hoffset, if_pos (by omega)]; omega)

theorem checksum_patch_of_le (read : UInt32 → UInt8) (start : UInt32) {length : UInt32} {p : Nat}
    (h : length.toNat ≤ p) (hp : p + 4 ≤ UInt32.size) (bytes : Vector UInt8 4) :
    checksum (patch read (start + UInt32.ofNat p) bytes) start length =
      checksum read start length := by
  refine checksum_congr fun i hi => patch_of_le ?_
  unfold UInt32.size at hp
  rw [toNat_offset start (by unfold UInt32.size; omega) (by unfold UInt32.size; omega),
    if_neg (by omega)]
  unfold UInt32.size
  omega

/-- The bytes before the patch lead to some state, the patch from there to any, and the bytes after
it keep the states apart. -/
theorem checksum_patch_bijective (read : UInt32 → UInt8) (start : UInt32) {length : UInt32}
    {p : Nat} (h : p + 4 ≤ length.toNat) :
    Function.Bijective fun bytes : Vector UInt8 4 =>
      checksum (patch read (start + UInt32.ofNat p) bytes) start length := by
  have hmask : Function.Bijective fun c : UInt32 => c ^^^ 0xffffffff :=
    Finite.injective_iff_bijective.mp fun _ _ => (UInt32.xor_left_inj _).mp
  have hsplit : (fun bytes : Vector UInt8 4 =>
      checksum (patch read (start + UInt32.ofNat p) bytes) start length) =
      (fun c : UInt32 => c ^^^ 0xffffffff) ∘
        (((range read start length).drop (p + 4)).foldl Checksum.fold) ∘
        fun bytes => bytes.toList.foldl Checksum.fold
          (((range read start length).take p).foldl Checksum.fold 0xffffffff) := by
    funext bytes
    simp only [checksum_eq_foldl, range_patch read start h, List.foldl_append, Function.comp_apply]
  rw [hsplit]
  exact hmask.comp ((Checksum.foldl_fold_bijective _).comp (Checksum.fold_four_bijective _))

end ConsoleCore
