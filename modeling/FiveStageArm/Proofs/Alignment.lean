/-
  FiveStageArm.Proofs.Alignment — word addresses in natural numbers. `align` clears the
  two low bits, so an address is `align` of itself exactly when it is a multiple of 4, and
  the four bytes of a word lie at the word's address plus 0 to 3.
-/

import FiveStageArm.Word

namespace FiveStageArm

theorem mask_low_two (n : Nat) (h : n < two32) : n &&& 0xFFFFFFFC = n / 4 * 4 := by
  apply Nat.eq_of_testBit_eq
  intro i
  have hm : (0xFFFFFFFC : Nat) = (0x3FFFFFFF <<< 2) := rfl
  have hd : n / 4 * 4 = (n >>> 2) <<< 2 := by rw [Nat.shiftRight_eq_div_pow, Nat.shiftLeft_eq]
  rw [hm, hd, Nat.testBit_and, Nat.testBit_shiftLeft, Nat.testBit_shiftLeft, Nat.testBit_shiftRight]
  by_cases hi : 2 ≤ i
  · have ones : (0x3FFFFFFF : Nat).testBit (i - 2) = decide (i - 2 < 30) := Nat.testBit_two_pow_sub_one 30 (i - 2)
    rw [ones, Nat.add_sub_cancel' hi]
    by_cases hb : i - 2 < 30
    · simp [hi, hb]
    · have large : 2 ^ 32 ≤ 2 ^ i := Nat.pow_le_pow_right (by decide) (by omega)
      have high : n.testBit i = false := Nat.testBit_lt_two_pow (Nat.lt_of_lt_of_le h large)
      simp [hb, high]
  · simp [hi]

theorem toNat_align (a : Address) : (align a).toNat = a.toNat / 4 * 4 := by
  have h : (align a).toNat = a.toNat &&& 0xFFFFFFFC := rfl
  rw [h, mask_low_two _ a.toNat_lt]

theorem align_eq_self {a : Address} : align a = a ↔ a.toNat % 4 = 0 := by
  rw [← UInt32.toNat_inj, toNat_align]
  omega

@[simp] theorem align_align (a : Address) : align (align a) = align a := by
  rw [align_eq_self, toNat_align]
  omega

/-- The bytes of an aligned word fall in that word. -/
theorem align_add {a k : Address} (ha : align a = a) (hk : k.toNat < 4) : align (a + k) = a := by
  rw [align_eq_self] at ha
  rw [← UInt32.toNat_inj, toNat_align, UInt32.toNat_add]
  have := a.toNat_lt
  omega

/-- An aligned distance keeps the place in the word. -/
theorem align_add_aligned {a b : Address} (hb : align b = b) : align (a + b) = align a + b := by
  rw [align_eq_self] at hb
  rw [← UInt32.toNat_inj, toNat_align, UInt32.toNat_add, UInt32.toNat_add, toNat_align]
  have := a.toNat_lt
  have := b.toNat_lt
  omega

theorem align_add_four (a : Address) : align (a + 4) = align a + 4 := align_add_aligned rfl

theorem align_mul_four (a : Address) : align (a * 4) = a * 4 := by
  have four : (4 : Address).toNat = 4 := rfl
  rw [align_eq_self, UInt32.toNat_mul, four]
  omega

/-- Distances from an aligned base keep their alignment. -/
theorem align_sub {a b : Address} (hb : align b = b) : align (a - b) = align a - b := by
  rw [align_eq_self] at hb
  rw [← UInt32.toNat_inj, toNat_align, UInt32.toNat_sub, UInt32.toNat_sub, toNat_align]
  have := a.toNat_lt
  have := b.toNat_lt
  omega

/-! ## The place in the word -/

theorem toNat_sub_align (a : Address) : (a - align a).toNat = a.toNat % 4 := by
  rw [UInt32.toNat_sub, toNat_align]
  have := a.toNat_lt
  omega

theorem add_sub_align (a : Address) : align a + (a - align a) = a := by
  rw [UInt32.add_comm, UInt32.sub_add_cancel]

/-- The addresses of a word are its own and the next three. -/
theorem sub_lt_four_iff {a c : Address} (ha : align a = a) : (c - a).toNat < 4 ↔ align c = a := by
  rw [align_eq_self] at ha
  rw [← UInt32.toNat_inj, toNat_align, UInt32.toNat_sub]
  have := a.toNat_lt
  have := c.toNat_lt
  omega

/-- Two addresses of one word differ in their place. -/
theorem eq_iff_place {a c : Address} (h : align c = align a) : c = a ↔ c.toNat % 4 = a.toNat % 4 := by
  rw [← UInt32.toNat_inj, toNat_align, toNat_align] at h
  rw [← UInt32.toNat_inj]
  omega

end FiveStageArm
