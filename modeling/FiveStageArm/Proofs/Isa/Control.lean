/-
  FiveStageArm.Proofs.Isa.Control — what an instruction asks of the machine around it: where
  it sends fetch, and what its control signals say once its condition is resolved. The flat
  record keeps the signals as fields, and is told apart from the instruction by nothing that a
  stage does with it.

  Proved:
  - A decoded instruction at a word's address sends fetch to a word's address
    (`aligned_branchTarget`), though a value written to R15 may be any.
  - A record whose condition fails raises no signal (`inert_gate`), nor does an instruction of
    an operation this machine does not have (`Inactive.signals`).
  - To resolve the condition of a record, to execute it or to ask what it reads is to do so
    with the instruction (`gate_fields`, `execute_fields`, `reads_fields`).
-/

import FiveStageArm.Proofs.Alignment
import FiveStageArm.Proofs.Isa.CarryChain
import FiveStageArm.Isa.Fields

namespace FiveStageArm

/-! ## Where it sends fetch -/

theorem Decode.aligned_offset {w : Word} {link : Bool} {offset : Word} (h : operation w = .branch link offset) :
    align offset = offset := by
  unfold operation at h
  split at h
  · split at h
    · cases h
    · split at h <;> cases h
  · split at h <;> cases h
  · split at h
    · cases h
      exact align_mul_four _
    · cases h
  · cases h

namespace Instruction

theorem aligned_target {i : Instruction} {offset : Word} (hp : align i.pc = i.pc) (ho : align offset = offset) :
    align (i.target offset) = i.target offset := by
  have eight : align (8 : Address) = 8 := rfl
  rw [target, align_add_aligned ho, align_add_aligned eight, hp]

theorem aligned_branchTarget {i : Instruction} {w : Word} (hw : i.operation = Decode.operation w)
    (hp : align i.pc = i.pc) (ops : Operands) (f : Flags) :
    align (i.execute ops f).branchTarget = (i.execute ops f).branchTarget := by
  cases ho : i.operation with
  | dataProcessing op s rn rd operand =>
    simp only [execute, ho]
    split
    · exact align_align _
    · rfl
  | branch link offset =>
    simp only [execute, ho]
    split
    · exact aligned_target hp (Decode.aligned_offset (hw.symm.trans ho))
    · rfl
  | multiply | transfer | coprocessor | undefined =>
    simp only [execute, ho]
    rfl

end Instruction

/-! ## Shapes of operations -/

/-- One case for every set of fields that the flat record has of its own. -/
@[elab_as_elim]
theorem Operation.byShape {motive : Operation → Prop}
    (rotated : ∀ op s rn rd imm rotate, motive (.dataProcessing op s rn rd (.immediate imm rotate)))
    (shifted : ∀ op s rn rd r, motive (.dataProcessing op s rn rd (.shifted r)))
    (shiftedBy : ∀ op s rn rd rm kind rs, motive (.dataProcessing op s rn rd (.shiftedBy rm kind rs)))
    (multiply : ∀ accumulate s rd rn rs rm, motive (.multiply accumulate s rd rn rs rm))
    (immediate : ∀ load byte pre up rn rd imm, motive (.transfer ⟨load, byte, pre, up, rn, rd, .immediate imm⟩))
    (register : ∀ load byte pre up rn rd r, motive (.transfer ⟨load, byte, pre, up, rn, rd, .shifted r⟩))
    (branch : ∀ link offset, motive (.branch link offset)) (coprocessor : motive .coprocessor)
    (undefined : motive .undefined) (o : Operation) : motive o := by
  cases o with
  | dataProcessing op s rn rd operand =>
    cases operand with
    | immediate imm rotate => exact rotated op s rn rd imm rotate
    | shifted r => exact shifted op s rn rd r
    | shiftedBy rm kind rs => exact shiftedBy op s rn rd rm kind rs
  | multiply accumulate s rd rn rs rm => exact multiply accumulate s rd rn rs rm
  | transfer t =>
    obtain ⟨load, byte, pre, up, rn, rd, offset⟩ := t
    cases offset with
    | immediate imm => exact immediate load byte pre up rn rd imm
    | shifted r => exact register load byte pre up rn rd r
  | branch link offset => exact branch link offset
  | coprocessor => exact coprocessor
  | undefined => exact undefined

/-! ## What it asks for -/

namespace Fields

/-- Nothing is written, read or redirected. -/
structure Inert (i : Fields) : Prop where
  setFlags : i.setFlags = false
  regWrite : i.regWrite = false
  memRead : i.memRead = false
  memWrite : i.memWrite = false
  branch : i.branch = false
  link : i.link = false

/-- The condition is resolved, and one that fails leaves no signal. -/
theorem inert_gate (f : Fields) (flags : Flags) :
    (f.gate flags).condPassed = f.cond.holds flags ∧
      (f.cond.holds flags = false → (f.gate flags).Inert ∧ (f.gate flags).memToReg = false) := by
  unfold gate
  cases f.cond.holds flags with
  | true => exact ⟨rfl, fun failed => by cases failed⟩
  | false => exact ⟨rfl, fun _ => ⟨⟨rfl, rfl, rfl, rfl, rfl, rfl⟩, rfl⟩⟩

theorem cond_gate (f : Fields) (flags : Flags) : (f.gate flags).cond = f.cond := by
  unfold gate
  cases f.cond.holds flags <;> rfl

section

variable (f : Fields) (o : Operation)

/-- A kind of operation has fields of its own and leaves the others alone. -/
theorem common_withOperation :
    { f.withOperation o with
      opcode := f.opcode, imm := f.imm, rotate := f.rotate, offset := f.offset, shiftKind := f.shiftKind
      shiftAmount := f.shiftAmount, shiftByRegister := f.shiftByRegister, immediateOperand := f.immediateOperand
      byte := f.byte, addOffset := f.addOffset, preIndex := f.preIndex, accumulate := f.accumulate } = f := by
  cases o using Operation.byShape <;> rfl

theorem gate_withOperation (flags : Flags) : (f.withOperation o).gate flags = (f.gate flags).withOperation o := by
  have cond : (f.withOperation o).cond = f.cond := by
    cases o using Operation.byShape <;> rfl
  unfold gate
  rw [cond]
  cases f.cond.holds flags <;> cases o using Operation.byShape <;> rfl

end

end Fields

namespace Instruction

open Fields (common_withOperation)

variable (i : Instruction)

@[simp] theorem raw_fields : i.fields.raw = i.raw := congrArg Fields.raw (common_withOperation _ _)

@[simp] theorem pc_fields : i.fields.pc = i.pc := congrArg Fields.pc (common_withOperation _ _)

@[simp] theorem cond_fields : i.fields.cond = i.cond := congrArg Fields.cond (common_withOperation _ _)

@[simp] theorem kind_fields : i.fields.kind = i.operation.kind := congrArg Fields.kind (common_withOperation _ _)

@[simp] theorem rn_fields : i.fields.rn = i.operation.rn := congrArg Fields.rn (common_withOperation _ _)

@[simp] theorem rm_fields : i.fields.rm = i.operation.rm := congrArg Fields.rm (common_withOperation _ _)

@[simp] theorem rs_fields : i.fields.rs = i.operation.rs := congrArg Fields.rs (common_withOperation _ _)

@[simp] theorem rd_fields : i.fields.rd = i.operation.rd := congrArg Fields.rd (common_withOperation _ _)

@[simp] theorem usesRn_fields : i.fields.usesRn = i.operation.usesRn :=
  congrArg Fields.usesRn (common_withOperation _ _)

@[simp] theorem usesRm_fields : i.fields.usesRm = i.operation.usesRm :=
  congrArg Fields.usesRm (common_withOperation _ _)

@[simp] theorem usesRs_fields : i.fields.usesRs = i.operation.usesRs :=
  congrArg Fields.usesRs (common_withOperation _ _)

@[simp] theorem usesRd_fields : i.fields.usesRd = i.operation.usesRd :=
  congrArg Fields.usesRd (common_withOperation _ _)

@[simp] theorem setFlags_fields : i.fields.setFlags = i.setFlags := congrArg Fields.setFlags (common_withOperation _ _)

@[simp] theorem regWrite_fields : i.fields.regWrite = i.regWrite := congrArg Fields.regWrite (common_withOperation _ _)

@[simp] theorem memRead_fields : i.fields.memRead = i.memRead := congrArg Fields.memRead (common_withOperation _ _)

@[simp] theorem memToReg_fields : i.fields.memToReg = i.memRead := congrArg Fields.memToReg (common_withOperation _ _)

@[simp] theorem reads_fields (r : Reg) : i.fields.reads r = i.operation.reads r := by
  unfold Fields.reads Operation.reads
  by_cases last : r = .pc <;> simp [last]

@[simp] theorem isSelfBranch_fields : i.fields.isSelfBranch = i.isSelfBranch := by
  obtain ⟨raw, pc, cond, o, passed⟩ := i
  cases passed <;> cases o using Operation.byShape <;> rfl

/-- A record is gated once. One whose signals are gone already does not get them back. -/
theorem gate_fields {i : Instruction} (unresolved : i.passed) (flags : Flags) :
    i.fields.gate flags = (i.gate flags).fields := by
  obtain ⟨raw, pc, cond, o, passed⟩ := i
  cases unresolved
  unfold fields
  rw [Fields.gate_withOperation]
  congr 1
  unfold Fields.gate
  simp only [gate, setFlags, regWrite, memRead, memWrite, branch, link, text, Bool.true_and]
  cases cond.holds flags <;> rfl

theorem execute_fields (ops : Operands) (flags : Flags) : i.fields.execute ops flags = i.execute ops flags := by
  obtain ⟨raw, pc, cond, o, passed⟩ := i
  cases o using Operation.byShape with
  | immediate load byte pre up rn rd imm =>
    cases pre with
    | false => rfl
    | true =>
      cases up with
      | true => exact congrArg (Outcome.mk · ops.rd flags false 0) (value_sum ops.rn imm)
      | false => exact congrArg (Outcome.mk · ops.rd flags false 0) (value_difference ops.rn imm)
  | register load byte pre up rn rd r =>
    cases pre with
    | false => rfl
    | true =>
      cases up with
      | true => exact congrArg (Outcome.mk · ops.rd flags false 0) (value_sum ops.rn _)
      | false => exact congrArg (Outcome.mk · ops.rd flags false 0) (value_difference ops.rn _)
  | _ => rfl

/-- Its condition failed, or this machine has no such operation. -/
def Inactive (i : Instruction) : Prop := i.passed = false ∨ i.operation = .coprocessor ∨ i.operation = .undefined

theorem Inactive.signals {i : Instruction} (h : i.Inactive) :
    i.setFlags = false ∧ i.regWrite = false ∧ i.memRead = false ∧ i.memWrite = false ∧ i.branch = false ∧
      i.link = false := by
  unfold Instruction.setFlags Instruction.regWrite Instruction.memRead Instruction.memWrite Instruction.branch
    Instruction.link
  rcases h with failed | none | none
  · simp [failed]
  · simp [none, Operation.setsFlags, Operation.writesRegister, Operation.loads, Operation.stores, Operation.branches,
      Operation.links]
  · simp [none, Operation.setsFlags, Operation.writesRegister, Operation.loads, Operation.stores, Operation.branches,
      Operation.links]

end Instruction

end FiveStageArm
