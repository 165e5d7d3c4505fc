/-
  FiveStageArm.Proofs.Isa.Alike — operations that differ only where it does not matter. A test
  has a destination and writes none, a move has a first operand and reads none, a multiply
  without accumulation an addend; a byte may be rotated to one value in several ways, and an
  offset of 0 goes up or down, before or after, all the same.

  Proved: such operations read the same sources (`sameSources`) and come to the same outcome
  (`execute`), the carry of a rotation apart: a logical operation that sets the flags takes
  its C from how its immediate was rotated.
-/

import FiveStageArm.Proofs.Isa.Sources
import FiveStageArm.Proofs.Isa.Ranges

namespace FiveStageArm

/-! ## Operands -/

inductive Operand2.Alike : Operand2 → Operand2 → Prop where
  /-- Bytes rotated to one value. -/
  | immediate {imm rotate imm' rotate' : Word} (byte : imm.toNat < 256) (byte' : imm'.toNat < 256)
      (value : rotateRight imm rotate = rotateRight imm' rotate') :
      Alike (.immediate imm rotate) (.immediate imm' rotate')
  | shifted (r : ShiftedRegister) : Alike (.shifted r) (.shifted r)
  | shiftedBy (rm : Reg) (kind : ShiftKind) (rs : Reg) : Alike (.shiftedBy rm kind rs) (.shiftedBy rm kind rs)

theorem rotateImmediate_value {imm : Word} (byte : imm.toNat < 256) (rotate : Word) (c : Bool) :
    (rotateImmediate imm rotate c).value = rotateRight imm rotate := by
  have whole : imm &&& 0xFF = imm := by
    rw [← UInt32.toNat_inj, UInt32.toNat_and]
    exact (Nat.and_two_pow_sub_one_eq_mod imm.toNat 8).trans (Nat.mod_eq_of_lt byte)
  unfold rotateImmediate
  rw [whole]
  by_cases unrotated : rotate = 0
  · have still : rotateRight imm 0 = imm := rfl
    rw [unrotated, still]
    rfl
  · simp only [unrotated, if_false]

/-- One value; the carries may differ. -/
theorem Operand2.Alike.value {o o' : Operand2} (h : o.Alike o') (ops : Operands) (c : Bool) :
    (o.value ops c).value = (o'.value ops c).value := by
  cases h with
  | immediate byte byte' same =>
    show (rotateImmediate _ _ c).value = (rotateImmediate _ _ c).value
    rw [rotateImmediate_value byte, rotateImmediate_value byte', same]
  | shifted r => rfl
  | shiftedBy rm kind rs => rfl

/-- An offset of 0 is at the base, whatever the addressing. -/
structure Transfer.Alike (t t' : Transfer) : Prop where
  load : t.load = t'.load
  byte : t.byte = t'.byte
  rn : t.rn = t'.rn
  rd : t.rd = t'.rd
  offset : t.offset = t'.offset
  addressing : t.offset = .immediate 0 ∨ t.pre = t'.pre ∧ t.up = t'.up

theorem Transfer.address_of_zero {t : Transfer} (h : t.offset = .immediate 0) (ops : Operands) (c : Bool) :
    t.address ops c = ops.rn := by
  have zero : t.offset.value ops c = 0 := by rw [h]; rfl
  unfold address
  rw [zero, UInt32.add_zero, UInt32.sub_zero, ite_self, ite_self]

theorem Transfer.Alike.address {t t' : Transfer} (h : t.Alike t') (ops : Operands) (c : Bool) :
    t.address ops c = t'.address ops c := by
  rcases h.addressing with zero | ⟨pre, up⟩
  · rw [address_of_zero zero, address_of_zero (h.offset ▸ zero)]
  · rw [Transfer.address, Transfer.address, pre, up, h.offset]

/-! ## Operations -/

/-- The words this machine has no operation for. -/
def Operation.Idle (o : Operation) : Prop := o = .coprocessor ∨ o = .undefined

inductive Operation.Alike : Operation → Operation → Prop where
  | dataProcessing {op : Opcode} {s : Bool} {rn rn' rd rd' : Reg} {operand operand' : Operand2}
      (first : op.isMove = false → rn = rn') (destination : op.isTest = false → rd = rd')
      (second : operand.Alike operand') :
      Alike (.dataProcessing op s rn rd operand) (.dataProcessing op s rn' rd' operand')
  | multiply {accumulate s : Bool} {rd rn rn' rs rm : Reg} (addend : accumulate → rn = rn') :
      Alike (.multiply accumulate s rd rn rs rm) (.multiply accumulate s rd rn' rs rm)
  | transfer {t t' : Transfer} (alike : t.Alike t') : Alike (.transfer t) (.transfer t')
  | branch (link : Bool) (offset : Word) : Alike (.branch link offset) (.branch link offset)
  | idle {o o' : Operation} (idle : o.Idle) (idle' : o'.Idle) : Alike o o'

/-- A logical operation that sets the flags, with a rotated byte for its operand. -/
def Operation.takesRotationCarry : Operation → Bool
  | dataProcessing op s _ _ (.immediate _ _) => s && op.isLogical
  | _ => false

namespace Operation

variable {o o' : Operation}

/-- They have the same sources. -/
theorem Alike.roles (h : o.Alike o') :
    (o.usesRn → o.rn = o'.rn) ∧ o.rm = o'.rm ∧ o.rs = o'.rs ∧ (o.usesRd → o.rd = o'.rd) := by
  cases h with
  | dataProcessing first destination second =>
    refine ⟨fun used => first (by simpa [usesRn] using used), ?_, ?_, fun used => by cases used⟩
    · cases second <;> rfl
    · cases second <;> rfl
  | multiply addend => exact ⟨fun used => addend used, rfl, rfl, fun used => by cases used⟩
  | @transfer t t' alike =>
    obtain ⟨load, byte, pre, up, rn, rd, offset⟩ := t
    obtain ⟨load', byte', pre', up', rn', rd', offset'⟩ := t'
    obtain ⟨rfl, rfl, rfl, rfl, rfl, -⟩ := alike
    refine ⟨fun _ => rfl, ?_, rfl, fun _ => rfl⟩
    cases offset <;> rfl
  | branch link offset => exact ⟨fun _ => rfl, rfl, rfl, fun _ => rfl⟩
  | idle idle idle' =>
    rcases idle with rfl | rfl
    all_goals rcases idle' with rfl | rfl
    all_goals exact ⟨fun _ => rfl, rfl, rfl, fun _ => rfl⟩

end Operation

/-- Only C depends on the shifter's carry. -/
theorem Opcode.newFlags_carry (op : Opcode) (f : Flags) (r : ArithResult) (k k' : Bool) :
    op.newFlags f r k' = { op.newFlags f r k with c := (op.newFlags f r k').c } := by
  unfold newFlags
  split <;> rfl

namespace Instruction

/-- At one address, with one condition unless there is nothing for it to hold back. -/
structure Alike (i j : Instruction) : Prop where
  pc : i.pc = j.pc
  operation : i.operation.Alike j.operation
  passed : ¬i.operation.Idle → i.passed = j.passed

/-- They ask the same of the machine; the destination counts where something is written. -/
structure SameSignals (i j : Instruction) : Prop where
  regWrite : i.regWrite = j.regWrite
  memRead : i.memRead = j.memRead
  memWrite : i.memWrite = j.memWrite
  setFlags : i.setFlags = j.setFlags
  isByte : i.operation.isByte = j.operation.isByte
  isSelfBranch : i.isSelfBranch = j.isSelfBranch
  rd : i.regWrite → i.rd = j.rd

namespace Alike

variable {i j : Instruction} (h : i.Alike j)

include h

theorem sameSources (value : Reg → Word) : i.operation.SameSources (i.operands value) (j.operands value) := by
  have role {r r' : Reg} (same : r = r') :
      (if r = .pc then i.pc + 8 else value r) = if r' = .pc then j.pc + 8 else value r' := by rw [same, h.pc]
  obtain ⟨rn, rm, rs, rd⟩ := h.operation.roles
  exact ⟨fun used => role (rn used), fun _ => role rm, fun _ => role rs, fun used => role (rd used)⟩

theorem sameSignals : i.SameSignals j := by
  obtain ⟨raw, pc, cond, o, p⟩ := i
  obtain ⟨raw', pc', cond', o', p'⟩ := j
  obtain ⟨-, alike, passed⟩ := h
  cases alike with
  | dataProcessing first destination second =>
    obtain rfl : p = p' := passed (by simp [Operation.Idle])
    refine ⟨rfl, rfl, rfl, rfl, rfl, rfl, fun writes => ?_⟩
    simp only [Instruction.regWrite, Operation.writesRegister, Bool.and_eq_true, Bool.not_eq_true'] at writes
    exact destination writes.2
  | multiply addend =>
    obtain rfl : p = p' := passed (by simp [Operation.Idle])
    exact ⟨rfl, rfl, rfl, rfl, rfl, rfl, fun _ => rfl⟩
  | transfer alike =>
    obtain rfl : p = p' := passed (by simp [Operation.Idle])
    refine ⟨congrArg (p && ·) alike.load, congrArg (p && ·) alike.load, ?_, rfl, alike.byte, rfl, fun _ => alike.rd⟩
    exact congrArg (p && !·) alike.load
  | branch link offset =>
    obtain rfl : p = p' := passed (by simp [Operation.Idle])
    exact ⟨rfl, rfl, rfl, rfl, rfl, rfl, fun _ => rfl⟩
  | idle idle idle' =>
    rcases idle with rfl | rfl
    all_goals rcases idle' with rfl | rfl
    all_goals constructor
    all_goals simp [Instruction.regWrite, Instruction.memRead, Instruction.memWrite, Instruction.setFlags,
      Instruction.isSelfBranch, Operation.writesRegister, Operation.loads, Operation.stores, Operation.setsFlags,
      Operation.isByte]

/-- What they come to from the same operands, the carry apart. -/
theorem execute (ops : Operands) (f : Flags) :
    j.execute ops f =
      { i.execute ops f with flags := { (i.execute ops f).flags with c := (j.execute ops f).flags.c } } := by
  obtain ⟨raw, pc, cond, o, p⟩ := i
  obtain ⟨raw', pc', cond', o', p'⟩ := j
  obtain ⟨rfl, alike, passed⟩ := h
  cases alike with
  | dataProcessing first destination second =>
    obtain rfl : p = p' := passed (by simp [Operation.Idle])
    rename_i op s rn rn' rd rd' operand operand'
    have redirects : ((p && !op.isTest) && rd == .pc) = ((p && !op.isTest) && rd' == .pc) := by
      cases test : op.isTest with
      | true => simp
      | false => rw [destination test]
    unfold Instruction.execute
    simp only [← second.value ops f.c, Outcome.mk.injEq, true_and]
    generalize op.apply ops.rn (operand.value ops f.c).value f.c = r
    refine ⟨?_, redirects.symm, ?_⟩
    · have agree (k k' : Bool) : (if p && s then op.newFlags f r k' else f) =
          { (if p && s then op.newFlags f r k else f) with c := (if p && s then op.newFlags f r k' else f).c } := by
        cases p && s with
        | false => rfl
        | true => exact op.newFlags_carry f r k k'
      exact agree _ _
    · show (if ((p && !op.isTest) && rd' == .pc) = true then _ else _) = _
      rw [← redirects]
      rfl
  | multiply addend =>
    obtain rfl : p = p' := passed (by simp [Operation.Idle])
    rfl
  | transfer alike =>
    simp only [Instruction.execute, alike.address]
  | branch link offset =>
    obtain rfl : p = p' := passed (by simp [Operation.Idle])
    rfl
  | idle idle idle' =>
    rcases idle with rfl | rfl
    all_goals rcases idle' with rfl | rfl
    all_goals rfl

/-- A carry that no rotation gives is the same too. -/
theorem execute_carry (unrotated : i.operation.takesRotationCarry = false) (ops : Operands) (f : Flags) :
    (i.execute ops f).flags.c = (j.execute ops f).flags.c := by
  obtain ⟨raw, pc, cond, o, p⟩ := i
  obtain ⟨raw', pc', cond', o', p'⟩ := j
  obtain ⟨rfl, alike, passed⟩ := h
  cases alike with
  | dataProcessing first destination second =>
    obtain rfl : p = p' := passed (by simp [Operation.Idle])
    cases second with
    | immediate byte byte' value =>
      rename_i op s rn rn' rd rd' imm rotate imm' rotate'
      have same := (Operand2.Alike.immediate byte byte' value).value ops f.c
      show (if p && s then op.newFlags f _ _ else f).c = (if p && s then op.newFlags f _ _ else f).c
      rw [same]
      cases sets : p && s with
      | false => rfl
      | true =>
        have arithmetic : op.isLogical = false := by
          simp only [Bool.and_eq_true] at sets
          simpa [Operation.takesRotationCarry, sets.2] using unrotated
        simp only [if_true, Opcode.newFlags, arithmetic, Bool.false_eq_true, if_false]
    | shifted r => rfl
    | shiftedBy rm kind rs => rfl
  | multiply addend =>
    obtain rfl : p = p' := passed (by simp [Operation.Idle])
    rfl
  | transfer alike => rfl
  | branch link offset => rfl
  | idle idle idle' =>
    rcases idle with rfl | rfl
    all_goals rcases idle' with rfl | rfl
    all_goals rfl

end Alike

end Instruction

end FiveStageArm
