/-
  FiveStageArm.Proofs.Lanes — a word as its four bytes. In whole numbers lane k of a word is
  its bits from 8k up, so a word is determined by its lanes; replacing one lane leaves the
  other three, and a word made of four bytes has them for its lanes.
-/

import FiveStageArm.Proofs.Alignment

namespace FiveStageArm

/-! ## Reading a lane -/

theorem toNat_laneShift (a : Address) : (laneShift a).toNat = a.toNat % 4 * 8 := by
  have low : (a &&& 3).toNat = a.toNat % 4 := Nat.and_two_pow_sub_one_eq_mod a.toNat 2
  have eight : (8 : Word).toNat = 8 := rfl
  unfold laneShift
  rw [UInt32.toNat_mul, low, eight]
  omega

theorem toNat_lane (w : Word) (a : Address) : (lane w a).toNat = w.toNat >>> (a.toNat % 4 * 8) % 256 := by
  have small : a.toNat % 4 * 8 % 32 = a.toNat % 4 * 8 := by omega
  unfold lane
  rw [UInt32.toNat_toUInt8, UInt32.toNat_shiftRight, toNat_laneShift, small]

/-- Which lane an address names is a matter of its place in the word. -/
theorem lane_congr (w : Word) {a c : Address} (h : a.toNat % 4 = c.toNat % 4) : lane w a = lane w c := by
  rw [← UInt8.toNat_inj, toNat_lane, toNat_lane, h]

/-- An offset from an aligned base names the lane of its address. -/
theorem lane_sub {base : Address} (hb : align base = base) (w : Word) (a : Address) : lane w (a - base) = lane w a := by
  rw [align_eq_self] at hb
  have := base.toNat_lt
  refine lane_congr w ?_
  rw [UInt32.toNat_sub]
  omega

@[simp] theorem lane_zero (a : Address) : lane 0 a = 0 := by
  rw [← UInt8.toNat_inj, toNat_lane]
  show 0 >>> _ % 256 = 0
  rw [Nat.zero_shiftRight]

theorem wordBytes_eq (w : Word) : wordBytes w = [lane w 0, lane w 1, lane w 2, lane w 3] := by
  have first : w.toUInt8 = lane w 0 := by
    rw [← UInt8.toNat_inj, toNat_lane]
    rfl
  unfold wordBytes
  rw [first]
  rfl

theorem eq_of_lt_four {k : Address} (h : k.toNat < 4) : k = 0 ∨ k = 1 ∨ k = 2 ∨ k = 3 := by
  simp only [← UInt32.toNat_inj, UInt32.reduceToNat]
  omega

/-- A word is its four lanes. -/
theorem eq_of_lane {w w' : Word} (h : ∀ k : Address, k.toNat < 4 → lane w k = lane w' k) : w = w' := by
  have same (k : Address) (hk : k.toNat < 4) :
      w.toNat >>> (k.toNat * 8) % 256 = w'.toNat >>> (k.toNat * 8) % 256 := by
    have e := congrArg UInt8.toNat (h k hk)
    rwa [toNat_lane, toNat_lane, Nat.mod_eq_of_lt hk] at e
  have h0 : w.toNat >>> 0 % 256 = w'.toNat >>> 0 % 256 := same 0 (by decide)
  have h1 : w.toNat >>> 8 % 256 = w'.toNat >>> 8 % 256 := same 1 (by decide)
  have h2 : w.toNat >>> 16 % 256 = w'.toNat >>> 16 % 256 := same 2 (by decide)
  have h3 : w.toNat >>> 24 % 256 = w'.toNat >>> 24 % 256 := same 3 (by decide)
  have := w.toNat_lt
  have := w'.toNat_lt
  rw [← UInt32.toNat_inj]
  omega

/-! ## Replacing a lane -/

theorem getLsbD_lane (w : Word) (a : Address) {i : Nat} (hi : i < 8) :
    (lane w a).toBitVec.getLsbD i = bit w (a.toNat % 4 * 8 + i) := by
  have small : a.toNat % 4 * 8 % 32 = a.toNat % 4 * 8 := by omega
  simp [lane, bit, toNat_laneShift, hi, small]

/-- The mask of a lane, before it is shifted into place. -/
theorem getElem_byteMask {k : Nat} (hk : k < 32) : (255#32)[k] = decide (k < 8) := by
  have ones : (255 : Nat).testBit k = decide (k < 8) := Nat.testBit_two_pow_sub_one 8 k
  rw [← BitVec.getLsbD_eq_getElem, BitVec.getLsbD_ofNat, ones]
  simp [hk]

theorem bit_setLane (w : Word) (a : Address) (v : Byte) {j : Nat} (hj : j < 32) :
    bit (setLane w a v) j = if j / 8 = a.toNat % 4 then v.toBitVec.getLsbD (j % 8) else bit w j := by
  have small : a.toNat % 4 * 8 % 32 = a.toNat % 4 * 8 := by omega
  have mask := getElem_byteMask (k := j - a.toNat % 4 * 8) (by omega)
  have formula : bit (setLane w a v) j =
      ((bit w j && (decide (j < a.toNat % 4 * 8) || !decide (j - a.toNat % 4 * 8 < 8))) ||
        (!decide (j < a.toNat % 4 * 8) && v.toBitVec.getLsbD (j - a.toNat % 4 * 8))) := by
    simp [setLane, bit, toNat_laneShift, hj, small, mask]
  rw [formula]
  by_cases h : j / 8 = a.toNat % 4
  · have notBelow : ¬j < a.toNat % 4 * 8 := by omega
    have place : j - a.toNat % 4 * 8 = j % 8 := by omega
    have inside : j % 8 < 8 := by omega
    rw [if_pos h, place]
    simp [notBelow, inside]
  · rw [if_neg h]
    by_cases below : j < a.toNat % 4 * 8
    · simp [below]
    · have outside : ¬j - a.toNat % 4 * 8 < 8 := by omega
      have past : v.toBitVec.getLsbD (j - a.toNat % 4 * 8) = false := BitVec.getLsbD_of_ge _ _ (by omega)
      simp [below, outside, past]

theorem lane_setLane (w : Word) (a c : Address) (v : Byte) :
    lane (setLane w a v) c = if c.toNat % 4 = a.toNat % 4 then v else lane w c := by
  rw [← UInt8.toBitVec_inj]
  apply BitVec.eq_of_getLsbD_eq
  intro i hi
  have quotient : (c.toNat % 4 * 8 + i) / 8 = c.toNat % 4 := by omega
  have rest : (c.toNat % 4 * 8 + i) % 8 = i := by omega
  rw [getLsbD_lane _ _ hi, bit_setLane _ _ _ (by omega), quotient, rest]
  by_cases h : c.toNat % 4 = a.toNat % 4
  · rw [if_pos h, if_pos h]
  · rw [if_neg h, if_neg h, getLsbD_lane _ _ hi]

/-! ## A word of four bytes -/

theorem or_shiftLeft {n : Nat} (k m : Nat) (h : n < 1 <<< k) : n ||| m <<< k = n + m <<< k := by
  rw [Nat.one_shiftLeft] at h
  rw [Nat.or_comm, ← Nat.shiftLeft_add_eq_or_of_lt h, Nat.add_comm]

theorem toNat_ofBytes (b0 b1 b2 b3 : Byte) :
    (ofBytes b0 b1 b2 b3).toNat = b0.toNat + b1.toNat <<< 8 + b2.toNat <<< 16 + b3.toNat <<< 24 := by
  have h0 := b0.toNat_lt
  have h1 := b1.toNat_lt
  have h2 := b2.toNat_lt
  have h3 := b3.toNat_lt
  have e1 : (b1.toUInt32 <<< 8).toNat = b1.toNat <<< 8 := by
    show b1.toNat <<< 8 % 0x100000000 = _
    omega
  have e2 : (b2.toUInt32 <<< 16).toNat = b2.toNat <<< 16 := by
    show b2.toNat <<< 16 % 0x100000000 = _
    omega
  have e3 : (b3.toUInt32 <<< 24).toNat = b3.toNat <<< 24 := by
    show b3.toNat <<< 24 % 0x100000000 = _
    omega
  unfold ofBytes
  rw [UInt32.toNat_or, UInt32.toNat_or, UInt32.toNat_or, e1, e2, e3, UInt8.toNat_toUInt32]
  rw [or_shiftLeft 8 _ (by omega), or_shiftLeft 16 _ (by omega), or_shiftLeft 24 _ (by omega)]

/-- The lanes of a word are the bytes it was made of. -/
theorem lane_ofBytes (s : Address → Byte) (a : Address) {k : Address} (hk : k.toNat < 4) :
    lane (ofBytes (s a) (s (a + 1)) (s (a + 2)) (s (a + 3))) k = s (a + k) := by
  have h0 := (s a).toNat_lt
  have h1 := (s (a + 1)).toNat_lt
  have h2 := (s (a + 2)).toNat_lt
  have h3 := (s (a + 3)).toNat_lt
  rw [← UInt8.toNat_inj, toNat_lane, toNat_ofBytes]
  rcases eq_of_lt_four hk with rfl | rfl | rfl | rfl
  · rw [UInt32.add_zero]
    show _ >>> 0 % 256 = _
    omega
  · show _ >>> 8 % 256 = _
    omega
  · show _ >>> 16 % 256 = _
    omega
  · show _ >>> 24 % 256 = _
    omega

end FiveStageArm
