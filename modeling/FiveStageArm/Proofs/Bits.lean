/-
  FiveStageArm.Proofs.Bits — a word bit by bit. A word is determined by its 32 bits, and
  each bit of a shifted or rotated word is a bit of the word before, at a place computed
  from the distance.
-/

import FiveStageArm.Isa.Alu

namespace FiveStageArm

theorem bit_eq_testBit (w : Word) (i : Nat) : bit w i = w.toNat.testBit i := rfl

theorem bit_of_ge (w : Word) {i : Nat} (h : 32 ≤ i) : bit w i = false := BitVec.getLsbD_of_ge _ _ h

theorem eq_of_bit {w w' : Word} (h : ∀ i, i < 32 → bit w i = bit w' i) : w = w' := by
  rw [← UInt32.toBitVec_inj]
  exact BitVec.eq_of_getLsbD_eq h

@[simp] theorem bit_zero (i : Nat) : bit 0 i = false := BitVec.getLsbD_zero

@[simp] theorem bit_or (v w : Word) (i : Nat) : bit (v ||| w) i = (bit v i || bit w i) := BitVec.getLsbD_or

@[simp] theorem bit_xor (v w : Word) (i : Nat) : bit (v ^^^ w) i = (bit v i ^^ bit w i) := BitVec.getLsbD_xor

@[simp] theorem bit_and (v w : Word) (i : Nat) : bit (v &&& w) i = (bit v i && bit w i) := BitVec.getLsbD_and

/-- A word with one bit set. -/
theorem bit_mask {m : Word} {n : Nat} (h : m.toNat = 1 <<< n) (i : Nat) : bit m i = decide (n = i) := by
  rw [bit_eq_testBit, h, Nat.one_shiftLeft, Nat.testBit_two_pow]

theorem bit_not (w : Word) {i : Nat} (hi : i < 32) : bit (~~~w) i = !bit w i := by
  simp [bit, hi]

/-! ## Shifts -/

theorem bit_shiftRight (w : Word) {k : Word} (hk : k.toNat < 32) (i : Nat) : bit (w >>> k) i = bit w (i + k.toNat) := by
  rw [bit_eq_testBit, UInt32.toNat_shiftRight, Nat.mod_eq_of_lt hk, Nat.testBit_shiftRight, Nat.add_comm]
  rfl

theorem bit_shiftLeft (w : Word) {k : Word} (hk : k.toNat < 32) {i : Nat} (hi : i < 32) :
    bit (w <<< k) i = (decide (k.toNat ≤ i) && bit w (i - k.toNat)) := by
  rw [bit_eq_testBit, UInt32.toNat_shiftLeft, Nat.mod_eq_of_lt hk, Nat.testBit_mod_two_pow, Nat.testBit_shiftLeft]
  simp [hi, bit_eq_testBit]

/-- Bits from beyond the word are the sign bit. -/
theorem bit_shiftRightSigned (w k : Word) {i : Nat} (hi : i < 32) :
    bit (shiftRightSigned w k) i = bit w (min (i + k.toNat) 31) := by
  unfold shiftRightSigned bit
  rw [BitVec.getLsbD_sshiftRight, BitVec.msb_eq_getLsbD_last]
  by_cases h : k.toNat + i < 32
  · have inside : min (i + k.toNat) 31 = k.toNat + i := by omega
    simp [h, hi, inside]
  · have past : min (i + k.toNat) 31 = 31 := by omega
    simp [h, hi, past]

theorem toNat_and_31 (w : Word) : (w &&& 31).toNat = w.toNat % 32 := Nat.and_two_pow_sub_one_eq_mod w.toNat 5

theorem toNat_and_0xFF (w : Word) : (w &&& 0xFF).toNat = w.toNat % 256 := Nat.and_two_pow_sub_one_eq_mod w.toNat 8

theorem bit_rotateRight (w k : Word) {i : Nat} (hi : i < 32) :
    bit (rotateRight w k) i = bit w ((i + k.toNat) % 32) := by
  have hr := toNat_and_31 k
  unfold rotateRight
  simp only []
  split
  · rename_i h
    rw [h, UInt32.toNat_zero] at hr
    have same : (i + k.toNat) % 32 = i := by omega
    rw [same]
  · rename_i h
    have pos : (k &&& 31).toNat ≠ 0 := fun h0 => h (UInt32.toNat_inj.mp h0)
    have left : (32 - (k &&& 31)).toNat = 32 - k.toNat % 32 := by
      have width : (32 : Word).toNat = 32 := rfl
      rw [UInt32.toNat_sub, hr, width]
      omega
    rw [bit_or, bit_shiftRight _ (by omega), bit_shiftLeft _ (by omega) hi, left, hr]
    by_cases inside : i + k.toNat % 32 < 32
    · have place : (i + k.toNat) % 32 = i + k.toNat % 32 := by omega
      have below : ¬32 - k.toNat % 32 ≤ i := by omega
      simp [place, below]
    · have place : (i + k.toNat) % 32 = i - (32 - k.toNat % 32) := by omega
      have above : 32 - k.toNat % 32 ≤ i := by omega
      simp [place, above, bit_of_ge w (Nat.not_lt.mp inside)]

end FiveStageArm
