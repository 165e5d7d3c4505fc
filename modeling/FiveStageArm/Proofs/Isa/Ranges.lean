/-
  FiveStageArm.Proofs.Isa.Ranges — what the fields of a decoded operation can be. An operation
  has words for its numbers, and a decoder fills them from a few bits: a byte to rotate, a
  shift by less than 32. A test always sets the flags.
-/

import FiveStageArm.Proofs.Isa.Layout

namespace FiveStageArm

def ShiftedRegister.InRange (r : ShiftedRegister) : Prop := r.amount.toNat < 32

def Operand2.InRange : Operand2 → Prop
  | immediate imm _ => imm.toNat < 256
  | shifted r => r.InRange
  | shiftedBy .. => True

def Offset.InRange : Offset → Prop
  | immediate _ => True
  | shifted r => r.InRange

def Operation.InRange : Operation → Prop
  | dataProcessing op s _ _ operand => (op.isTest → s) ∧ operand.InRange
  | transfer t => t.offset.InRange
  | multiply .. | branch .. | coprocessor | undefined => True

namespace Decode

variable (w : Word)

theorem inRange_shiftedRegister : (shiftedRegister w).InRange := by
  show (bits w 7 5).toNat < 32
  rw [toNat_bits w 7 5 (by decide) (by decide)]
  exact Nat.mod_lt _ (by decide)

theorem inRange_operand2 : (operand2 w).InRange := by
  unfold operand2
  split
  · show (bits w 0 8).toNat < 256
    rw [toNat_bits w 0 8 (by decide) (by decide)]
    exact Nat.mod_lt _ (by decide)
  split
  · trivial
  · exact inRange_shiftedRegister w

theorem inRange_operation : (operation w).InRange := by
  unfold operation
  split
  · split
    · trivial
    split
    · trivial
    · exact ⟨fun test => by simp [test], inRange_operand2 w⟩
  · split
    · trivial
    · show (if bit w 25 then Offset.shifted (shiftedRegister w) else .immediate (bits w 0 12)).InRange
      split
      · exact inRange_shiftedRegister w
      · trivial
  · split
    · trivial
    · trivial
  · trivial

end Decode

end FiveStageArm
