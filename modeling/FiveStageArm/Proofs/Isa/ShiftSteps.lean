/-
  FiveStageArm.Proofs.Isa.ShiftSteps — the barrel shifter as a machine that shifts by one
  place at a time. Each place drops one bit of the word into the carry, and the kind of
  shift says which bit that is and what comes in at the other end (`ShiftKind.step`).

  After n places each bit of the word is a bit of the word before the first of them
  (`shiftedBit`), and the carry is the bit that stood at the end just before the last. The
  shifter's closed forms are compared with that bit by bit.

  Proved: a shift by a register is as many places as its low byte says, a shift by an
  encoded amount is that many places or what the amount 0 stands for, and a rotated
  immediate is a byte after as many places to the right (`shifts_are_steps`).
-/

import FiveStageArm.Proofs.Bits
import Mathlib.Logic.Function.Iterate

namespace FiveStageArm

namespace ShiftKind

/-- One place. The bit that falls out of the word goes to the carry. -/
def step (kind : ShiftKind) (s : Shifted) : Shifted :=
  match kind with
  | lsl => ⟨s.value <<< 1, bit s.value 31⟩
  | lsr => ⟨s.value >>> 1, bit s.value 0⟩
  | asr => ⟨(s.value >>> 1) ||| (s.value &&& 0x80000000), bit s.value 0⟩
  | ror => ⟨(s.value >>> 1) ||| (s.value <<< 31), bit s.value 0⟩

/-- The place from which bits fall out. -/
def outlet : ShiftKind → Nat
  | lsl => 31
  | lsr | asr | ror => 0

/-- Bit `i` of a word after `n` places. -/
def shiftedBit (kind : ShiftKind) (w : Word) (n i : Nat) : Bool :=
  match kind with
  | lsl => decide (n ≤ i) && bit w (i - n)
  | lsr => bit w (i + n)
  | asr => bit w (min (i + n) 31)
  | ror => bit w ((i + n) % 32)

/-! ## Many places -/

theorem carry_step (kind : ShiftKind) (s : Shifted) : (kind.step s).carry = bit s.value kind.outlet := by
  cases kind <;> rfl

theorem bit_signMask (i : Nat) : bit 0x80000000 i = decide (31 = i) := bit_mask rfl i

theorem bit_step (kind : ShiftKind) (s : Shifted) {i : Nat} (hi : i < 32) :
    bit (kind.step s).value i = kind.shiftedBit s.value 1 i := by
  have right : bit (s.value >>> 1) i = bit s.value (i + 1) := bit_shiftRight s.value (by decide) i
  cases kind with
  | lsl => exact bit_shiftLeft s.value (by decide) hi
  | lsr => exact right
  | asr =>
    simp only [step, shiftedBit, bit_or, bit_and, right, bit_signMask]
    by_cases top : 31 = i
    · subst top
      simp [bit_of_ge]
    · have inside : min (i + 1) 31 = i + 1 := by omega
      simp [top, inside]
  | ror =>
    have left : bit (s.value <<< 31) i = (decide (31 ≤ i) && bit s.value (i - 31)) :=
      bit_shiftLeft s.value (by decide) hi
    simp only [step, shiftedBit, bit_or, right, left]
    by_cases top : 31 ≤ i
    · have last : i = 31 := by omega
      subst last
      simp [bit_of_ge]
    · have inside : (i + 1) % 32 = i + 1 := by omega
      simp [top, inside]

theorem shiftedBit_zero (kind : ShiftKind) (w : Word) {i : Nat} (hi : i < 32) : kind.shiftedBit w 0 i = bit w i := by
  cases kind with
  | lsl => simp [shiftedBit]
  | lsr => rfl
  | asr =>
    have inside : min i 31 = i := by omega
    simp [shiftedBit, inside]
  | ror => simp [shiftedBit, Nat.mod_eq_of_lt hi]

theorem bit_iterate (kind : ShiftKind) (n : Nat) (s : Shifted) {i : Nat} (hi : i < 32) :
    bit (kind.step^[n] s).value i = kind.shiftedBit s.value n i := by
  induction n generalizing i with
  | zero => exact (kind.shiftedBit_zero s.value hi).symm
  | succ n ih =>
    rw [Function.iterate_succ_apply', bit_step kind _ hi]
    -- the last place takes bit i from next to it, where the places before have brought it
    cases kind with
    | lsl =>
      have bounds : (decide (1 ≤ i) && decide (n ≤ i - 1)) = decide (n + 1 ≤ i) := by
        rw [← Bool.decide_and, decide_eq_decide]
        omega
      have place : i - 1 - n = i - (n + 1) := by omega
      rw [shiftedBit, ih (by omega), shiftedBit, ← Bool.and_assoc, bounds, place, shiftedBit]
    | lsr =>
      have place : i + 1 + n = i + (n + 1) := by omega
      simp only [shiftedBit]
      by_cases inside : i + 1 < 32
      · rw [ih inside, shiftedBit, place]
      · rw [bit_of_ge _ (by omega), bit_of_ge _ (by omega)]
    | asr =>
      have place : min (min (i + 1) 31 + n) 31 = min (i + (n + 1)) 31 := by omega
      rw [shiftedBit, ih (by omega), shiftedBit, place, shiftedBit]
    | ror =>
      have place : ((i + 1) % 32 + n) % 32 = (i + (n + 1)) % 32 := by omega
      rw [shiftedBit, ih (by omega), shiftedBit, place, shiftedBit]

theorem carry_iterate (kind : ShiftKind) (n : Nat) (s : Shifted) :
    (kind.step^[n + 1] s).carry = kind.shiftedBit s.value n kind.outlet := by
  have inside : kind.outlet < 32 := by cases kind <;> decide
  rw [Function.iterate_succ_apply', carry_step, bit_iterate kind n s inside]

/-- What to compare with `n` places. -/
theorem eq_iterate {kind : ShiftKind} {n : Nat} {s t : Shifted} (pos : n ≠ 0)
    (value : ∀ i, i < 32 → bit t.value i = kind.shiftedBit s.value n i)
    (carry : t.carry = kind.shiftedBit s.value (n - 1) kind.outlet) : t = kind.step^[n] s := by
  have hv : t.value = (kind.step^[n] s).value := by
    apply eq_of_bit
    intro i hi
    rw [value i hi, bit_iterate kind n s hi]
  have hc : t.carry = (kind.step^[n] s).carry := by
    obtain ⟨k, rfl⟩ := Nat.exists_eq_add_one_of_ne_zero pos
    rw [carry, carry_iterate, Nat.add_sub_cancel]
  cases t
  simp only at hv hc
  rw [hv, hc]

/-! ## The shifter -/

theorem bit_signFill (w : Word) {i : Nat} (hi : i < 32) : bit (signFill w) i = bit w 31 := by
  have ones : bit 0xFFFFFFFF i = decide (i < 32) := Nat.testBit_two_pow_sub_one 32 i
  unfold signFill
  split
  · rename_i set
    rw [ones, set]
    exact decide_eq_true hi
  · rename_i clear
    rw [bit_zero, Bool.eq_false_iff.mpr clear]

section Below

variable (kind : ShiftKind) (value : Word) {amount : Word} (pos : amount.toNat ≠ 0) (below : amount.toNat < 32)

include below in
theorem bit_shiftBelow32 {i : Nat} (hi : i < 32) :
    bit (shiftBelow32 kind value amount).value i = kind.shiftedBit value amount.toNat i := by
  cases kind with
  | lsl => exact bit_shiftLeft value below hi
  | lsr => exact bit_shiftRight value below i
  | asr => exact bit_shiftRightSigned value amount hi
  | ror => exact bit_rotateRight value amount hi

include pos below

theorem carry_shiftBelow32 :
    (shiftBelow32 kind value amount).carry = kind.shiftedBit value (amount.toNat - 1) kind.outlet := by
  cases kind with
  | lsl =>
    have bounds : amount.toNat - 1 ≤ 31 := by omega
    have place : 31 - (amount.toNat - 1) = 32 - amount.toNat := by omega
    simp [shiftBelow32, shiftedBit, outlet, bounds, place]
  | lsr => simp [shiftBelow32, shiftedBit, outlet]
  | asr =>
    have inside : min (amount.toNat - 1) 31 = amount.toNat - 1 := by omega
    simp [shiftBelow32, shiftedBit, outlet, inside]
  | ror =>
    have inside : (amount.toNat - 1) % 32 = amount.toNat - 1 := by omega
    simp [shiftBelow32, shiftedBit, outlet, inside]

theorem shiftBelow32_eq_iterate (carry : Bool) :
    shiftBelow32 kind value amount = kind.step^[amount.toNat] ⟨value, carry⟩ := by
  apply eq_iterate pos
  · intro i hi
    exact kind.bit_shiftBelow32 value below hi
  · exact kind.carry_shiftBelow32 value pos below

end Below

/-! From 32 places on nothing of the word is left but its sign. -/

section Beyond

variable {amount : Word} (beyond : 32 ≤ amount.toNat) (s : Shifted)

include beyond

theorem lsl_iterate_of_ge : ⟨0, amount = 32 && bit s.value 0⟩ = lsl.step^[amount.toNat] s := by
  apply eq_iterate (by omega)
  · intro i hi
    have out : ¬amount.toNat ≤ i := by omega
    simp [shiftedBit, out]
  · by_cases last : amount = 32
    · simp [shiftedBit, outlet, last]
    · have past : amount.toNat ≠ 32 := fun h => last (UInt32.toNat_inj.mp h)
      have out : ¬amount.toNat - 1 ≤ 31 := by omega
      simp only [shiftedBit, outlet, last, out, decide_false, Bool.false_and]

theorem lsr_iterate_of_ge : ⟨0, amount = 32 && bit s.value 31⟩ = lsr.step^[amount.toNat] s := by
  apply eq_iterate (by omega)
  · intro i hi
    have out : bit s.value (i + amount.toNat) = false := bit_of_ge _ (by omega)
    simp [shiftedBit, out]
  · by_cases last : amount = 32
    · simp [shiftedBit, outlet, last]
    · have past : amount.toNat ≠ 32 := fun h => last (UInt32.toNat_inj.mp h)
      have out : bit s.value (0 + (amount.toNat - 1)) = false := bit_of_ge _ (by omega)
      simp only [shiftedBit, outlet, last, out, decide_false, Bool.false_and]

theorem asr_iterate_of_ge : ⟨signFill s.value, bit s.value 31⟩ = asr.step^[amount.toNat] s := by
  apply eq_iterate (by omega)
  · intro i hi
    have sign : min (i + amount.toNat) 31 = 31 := by omega
    rw [bit_signFill _ hi, shiftedBit, sign]
  · have sign : min (0 + (amount.toNat - 1)) 31 = 31 := by omega
    rw [outlet, shiftedBit, sign]

end Beyond

/-- Rotation has period 32, and the bit that went last stands at the top. -/
theorem ror_iterate {amount : Word} (pos : amount.toNat ≠ 0) (s : Shifted) :
    ⟨rotateRight s.value amount, bit s.value ((amount.toNat - 1) % 32)⟩ = ror.step^[amount.toNat] s := by
  apply eq_iterate pos
  · intro i hi
    exact bit_rotateRight _ _ hi
  · rw [outlet, shiftedBit, Nat.zero_add]

end ShiftKind

open ShiftKind

theorem rotateRight_and_31 (w amount : Word) : rotateRight w (amount &&& 31) = rotateRight w amount := by
  apply eq_of_bit
  intro i hi
  rw [bit_rotateRight _ _ hi, bit_rotateRight _ _ hi, toNat_and_31, Nat.add_mod_mod]

theorem shiftByRegister_eq_iterate (kind : ShiftKind) (value amount : Word) (carry : Bool) :
    shiftByRegister kind value amount carry = kind.step^[amount.toNat % 256] ⟨value, carry⟩ := by
  rw [← toNat_and_0xFF]
  unfold shiftByRegister
  simp only []
  generalize amount &&& 0xFF = r
  by_cases zero : r = 0
  · rw [if_pos zero, zero]
    rfl
  rw [if_neg zero]
  have pos : r.toNat ≠ 0 := fun h => zero (UInt32.toNat_inj.mp h)
  cases kind with
  | lsl =>
    by_cases below : r < 32
    · simp only [if_pos below]
      exact shiftBelow32_eq_iterate _ value pos below carry
    · simp only [if_neg below]
      exact lsl_iterate_of_ge (Nat.not_lt.mp below) ⟨value, carry⟩
  | lsr =>
    by_cases below : r < 32
    · simp only [if_pos below]
      exact shiftBelow32_eq_iterate _ value pos below carry
    · simp only [if_neg below]
      exact lsr_iterate_of_ge (Nat.not_lt.mp below) ⟨value, carry⟩
  | asr =>
    by_cases below : r < 32
    · simp only [if_pos below]
      exact shiftBelow32_eq_iterate _ value pos below carry
    · simp only [if_neg below]
      exact asr_iterate_of_ge (Nat.not_lt.mp below) ⟨value, carry⟩
  | ror =>
    have low := toNat_and_31 r
    rw [← ror_iterate pos]
    by_cases whole : r &&& 31 = 0
    · have last : (r.toNat - 1) % 32 = 31 := by
        rw [whole, UInt32.toNat_zero] at low
        omega
      have same : rotateRight value r = value := by
        rw [← rotateRight_and_31, whole]
        rfl
      simp only [if_pos whole, last, same]
    · have last : (r &&& 31).toNat - 1 = (r.toNat - 1) % 32 := by
        have : (r &&& 31).toNat ≠ 0 := fun h => whole (UInt32.toNat_inj.mp h)
        omega
      simp only [if_neg whole, shiftBelow32, rotateRight_and_31, last]

theorem shiftImmediate_eq_iterate (kind : ShiftKind) (value : Word) {amount : Word} (h : amount.toNat % 32 ≠ 0)
    (carry : Bool) : shiftImmediate kind value amount carry = kind.step^[amount.toNat % 32] ⟨value, carry⟩ := by
  rw [← toNat_and_31] at h ⊢
  have nonzero : amount &&& 31 ≠ 0 := fun e => h (congrArg UInt32.toNat e)
  have below : (amount &&& 31).toNat < 32 := by
    rw [toNat_and_31]
    omega
  simp only [shiftImmediate, if_neg nonzero]
  exact shiftBelow32_eq_iterate kind value h below carry

theorem rotateImmediate_eq_iterate (imm amount : Word) (carry : Bool) :
    rotateImmediate imm amount carry = ror.step^[amount.toNat] ⟨imm &&& 0xFF, carry⟩ := by
  unfold rotateImmediate
  simp only []
  split
  · rename_i zero
    rw [zero]
    rfl
  · rename_i nonzero
    have pos : amount.toNat ≠ 0 := fun h => nonzero (UInt32.toNat_inj.mp h)
    have last : (31 + amount.toNat) % 32 = (amount.toNat - 1) % 32 := by omega
    rw [← ror_iterate pos, bit_rotateRight _ _ (by decide), last]

/-! ## Through the carry -/

/-- The carry in front of the word, as one quantity of 33 bits. -/
def Shifted.extended (s : Shifted) : BitVec 33 := BitVec.cons s.carry s.value.toBitVec

theorem getLsbD_extended (s : Shifted) (i : Nat) :
    s.extended.getLsbD i = if i = 32 then s.carry else bit s.value i := BitVec.getLsbD_cons _ _ i

theorem extended_shiftImmediate_ror_zero (value : Word) (carry : Bool) :
    (shiftImmediate .ror value 0 carry).extended = (Shifted.extended ⟨value, carry⟩).rotateRight 1 := by
  have right (i : Nat) : bit (value >>> 1) i = bit value (i + 1) := bit_shiftRight value (by decide) i
  have top (i : Nat) : bit (if carry then 0x80000000 else 0) i = (decide (31 = i) && carry) := by
    cases carry with
    | true => simp [bit_signMask]
    | false => simp
  have formula : shiftImmediate .ror value 0 carry =
      ⟨(if carry then (0x80000000 : Word) else 0) ||| (value >>> 1), bit value 0⟩ := rfl
  apply BitVec.eq_of_getLsbD_eq
  intro i hi
  rw [formula, BitVec.getLsbD_rotateRight, getLsbD_extended, getLsbD_extended, getLsbD_extended, bit_or, right, top]
  by_cases last : i = 32
  · subst last
    simp
  · by_cases next : 31 = i
    · subst next
      simp [bit_of_ge]
    · have inside : i < 32 := by omega
      have below : ¬i = 31 := by omega
      simp [last, next, inside, below, Nat.add_comm 1 i]

/-- A register says how many places by its low byte, and so does an encoded amount, except that
    0 stands for no place with LSL, for 32 with LSR and ASR, and for one place through the
    carry with ROR. -/
structure AreSteps (kind : ShiftKind) (value amount : Word) (carry : Bool) : Prop where
  byRegister : shiftByRegister kind value amount carry = kind.step^[amount.toNat % 256] ⟨value, carry⟩
  encoded : amount.toNat % 32 ≠ 0 →
    shiftImmediate kind value amount carry = kind.step^[amount.toNat % 32] ⟨value, carry⟩
  lslZero : shiftImmediate .lsl value 0 carry = ⟨value, carry⟩
  lsrZero : shiftImmediate .lsr value 0 carry = lsr.step^[32] ⟨value, carry⟩
  asrZero : shiftImmediate .asr value 0 carry = asr.step^[32] ⟨value, carry⟩
  rorZero : (shiftImmediate .ror value 0 carry).extended = (Shifted.extended ⟨value, carry⟩).rotateRight 1
  immediate : rotateImmediate value amount carry = ror.step^[amount.toNat] ⟨value &&& 0xFF, carry⟩

/-- Every shift is the one-place shift of its kind over and over. -/
theorem shifts_are_steps (kind : ShiftKind) (value amount : Word) (carry : Bool) :
    AreSteps kind value amount carry := by
  have full : 32 ≤ (32 : Word).toNat := by decide
  constructor
  case byRegister => exact shiftByRegister_eq_iterate kind value amount carry
  case encoded => exact fun h => shiftImmediate_eq_iterate kind value h carry
  case lslZero => rfl
  case lsrZero => exact lsr_iterate_of_ge full ⟨value, carry⟩
  case asrZero => exact asr_iterate_of_ge full ⟨value, carry⟩
  case rorZero => exact extended_shiftImmediate_ror_zero value carry
  case immediate => exact rotateImmediate_eq_iterate value amount carry

/-- The amount 0x121 is 33 places out of a register and one place in an encoding. -/
theorem shifts_are_steps_lsl33 :
    (0x121 : Word).toNat % 32 ≠ 0 ∧
      shiftByRegister .lsl 0x80000001 0x121 true = lsl.step^[33] ⟨0x80000001, true⟩ ∧
      lsl.step^[33] ⟨0x80000001, true⟩ = ⟨0, false⟩ ∧
      shiftImmediate .lsl 0x80000001 0x121 true = lsl.step^[1] ⟨0x80000001, true⟩ ∧
      lsl.step^[1] ⟨0x80000001, true⟩ = ⟨2, true⟩ := by
  have part : (0x121 : Word).toNat % 32 ≠ 0 := by decide
  have steps := shifts_are_steps .lsl 0x80000001 0x121 true
  exact ⟨part, steps.byRegister, by decide +kernel, steps.encoded part, by decide +kernel⟩

end FiveStageArm
