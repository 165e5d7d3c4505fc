/-
  FiveStageArm.Isa.Fields — an instruction as a flat record, every field present. Where
  the operation has no such field the record holds what it holds for an empty slot:
  register 0, MOV, an unshifted operand, an offset that is added before the access. The
  defaults below are that record; it is not the decoding of `nopWord`, since it writes
  nothing and reads nothing.

  A record's control signals are fields like the others: decoding sets those the operation
  asks for, and resolving the condition clears them where it fails (`gate`). What the record
  computes and whether it reads a register is told by its fields alone.
-/

import FiveStageArm.Isa.Decode
import FiveStageArm.Isa.Execute

namespace FiveStageArm

structure Fields where
  raw : Word := nopWord
  pc : Address := 0
  cond : Condition := .al
  kind : OperationClass := .dataProcessing
  opcode : Opcode := .mov
  rd : Reg := .r0
  rn : Reg := .r0
  rm : Reg := .r0
  rs : Reg := .r0
  usesRn : Bool := false
  usesRm : Bool := false
  usesRs : Bool := false
  usesRd : Bool := false
  imm : Word := 0
  rotate : Word := 0
  offset : Word := 0
  shiftKind : ShiftKind := .lsl
  shiftAmount : Word := 0
  shiftByRegister : Bool := false
  condPassed : Bool := true
  setFlags : Bool := false
  regWrite : Bool := false
  memRead : Bool := false
  memWrite : Bool := false
  memToReg : Bool := false
  immediateOperand : Bool := false
  branch : Bool := false
  link : Bool := false
  byte : Bool := false
  addOffset : Bool := true
  preIndex : Bool := true
  accumulate : Bool := false
  text : String := ""

namespace Fields

def withShift (f : Fields) (r : ShiftedRegister) : Fields := { f with shiftKind := r.kind, shiftAmount := r.amount }

def withOperand2 (f : Fields) : Operand2 → Fields
  | .immediate imm rotate => { f with imm, rotate, immediateOperand := true }
  | .shifted r => f.withShift r
  | .shiftedBy _ kind _ => { f with shiftKind := kind, shiftByRegister := true }

def withOffset (f : Fields) : Offset → Fields
  | .immediate imm => { f with imm, immediateOperand := true }
  | .shifted r => f.withShift r

/-- The fields that only some kinds of operation have. -/
def withOperation (f : Fields) : Operation → Fields
  | .dataProcessing op _ _ _ operand => { f with opcode := op }.withOperand2 operand
  | .multiply accumulate .. => { f with accumulate }
  | .transfer t =>
    { f with opcode := if t.up then .add else .sub, byte := t.byte, addOffset := t.up, preIndex := t.pre }.withOffset
      t.offset
  | .branch _ offset => { f with offset }
  | .coprocessor | .undefined => f

end Fields

def Instruction.fields (i : Instruction) : Fields :=
  let o := i.operation
  let common : Fields := {
    raw := i.raw, pc := i.pc, cond := i.cond, kind := o.kind
    rd := o.rd, rn := o.rn, rm := o.rm, rs := o.rs
    usesRn := o.usesRn, usesRm := o.usesRm, usesRs := o.usesRs, usesRd := o.usesRd
    condPassed := i.passed, setFlags := i.setFlags, regWrite := i.regWrite
    memRead := i.memRead, memWrite := i.memWrite, memToReg := i.memRead
    branch := i.branch, link := i.link, text := i.text }
  common.withOperation o

namespace Fields

def isNop (f : Fields) : Bool := f.raw == nopWord

/-- The branch to itself with which firmware says it is done. -/
def isSelfBranch (f : Fields) : Bool := f.kind == .branch && f.branch && f.offset == 0xFFFFFFF8

/-- Resolves the condition against the flags. A record that fails keeps its place and every
    field but its signals. -/
def gate (f : Fields) (flags : Flags) : Fields :=
  let f := { f with condPassed := f.cond.holds flags }
  if f.condPassed then f
  else
    { f with
      setFlags := false, regWrite := false, memRead := false, memWrite := false, memToReg := false
      branch := false, link := false }

/-- Whether the record takes a value from `r`; R15 is read off the fetch address. -/
def reads (f : Fields) (r : Reg) : Bool :=
  if r = .pc then false
  else (f.usesRn && f.rn == r) || (f.usesRm && f.rm == r) || (f.usesRs && f.rs == r) || (f.usesRd && f.rd == r)

/-! ## What the record computes -/

def operand2 (f : Fields) (ops : Operands) (carry : Bool) : Shifted :=
  if f.immediateOperand then rotateImmediate f.imm f.rotate carry
  else if f.shiftByRegister then FiveStageArm.shiftByRegister f.shiftKind ops.rm ops.rs carry
  else shiftImmediate f.shiftKind ops.rm f.shiftAmount carry

/-- How far from its base a load or store goes. -/
def displacement (f : Fields) (ops : Operands) (carry : Bool) : Word :=
  if f.immediateOperand then f.imm else (shiftImmediate f.shiftKind ops.rm f.shiftAmount carry).value

def execute (f : Fields) (ops : Operands) (flags : Flags) : Outcome :=
  let nothing : Outcome := ⟨0, 0, flags, false, 0⟩
  match f.kind with
  | .dataProcessing =>
    let shifted := f.operand2 ops flags.c
    let r := f.opcode.apply ops.rn shifted.value flags.c
    let taken := f.regWrite && f.rd == .pc
    { result := r.value, storeValue := 0
      flags := if f.setFlags then f.opcode.newFlags flags r shifted.carry else flags
      branchTaken := taken, branchTarget := if taken then align r.value else 0 }
  | .multiply =>
    let value := multiplyAdd ops.rm ops.rs (if f.accumulate then ops.rn else 0)
    { nothing with result := value, flags := if f.setFlags then flags.withResult value else flags }
  | .loadStore =>
    let address := if f.preIndex then (f.opcode.apply ops.rn (f.displacement ops flags.c) flags.c).value else ops.rn
    { nothing with result := address, storeValue := ops.rd }
  | .branch =>
    { nothing with
      result := f.pc + 4, branchTaken := f.branch, branchTarget := if f.branch then f.pc + 8 + f.offset else 0 }
  | .coprocessor | .undefined => nothing

end Fields

end FiveStageArm
