/-
  FiveStageArm.Isa.Execute — what one instruction computes from its four operand values
  and the flags: a result (a value, an address or a return address), the data it would
  store, the new flags, and whether and where it redirects fetch. A skipped instruction
  may compute a result, but neither changes the flags nor redirects.
-/

import FiveStageArm.Isa.Decode

namespace FiveStageArm

/-- Register values by role. -/
structure Operands where
  rn : Word
  rm : Word
  rs : Word
  rd : Word
  deriving DecidableEq

structure Outcome where
  result : Word
  storeValue : Word
  flags : Flags
  branchTaken : Bool
  /-- Zero when no branch is taken. -/
  branchTarget : Address
  deriving DecidableEq

def ShiftedRegister.value (r : ShiftedRegister) (rm : Word) (carry : Bool) : Shifted :=
  shiftImmediate r.kind rm r.amount carry

def Operand2.value (o : Operand2) (ops : Operands) (carry : Bool) : Shifted :=
  match o with
  | .immediate imm rotate => rotateImmediate imm rotate carry
  | .shifted r => r.value ops.rm carry
  | .shiftedBy _ kind _ => shiftByRegister kind ops.rm ops.rs carry

def Offset.value (o : Offset) (ops : Operands) (carry : Bool) : Word :=
  match o with
  | .immediate imm => imm
  | .shifted r => (r.value ops.rm carry).value

/-- The flags a data-processing operation sets. A logical one takes its carry from the
    shifter and keeps V. -/
def Opcode.newFlags (op : Opcode) (f : Flags) (r : ArithResult) (shifterCarry : Bool) : Flags :=
  if op.isLogical then { f.withResult r.value with c := shifterCarry }
  else { f.withResult r.value with c := r.carry, v := r.overflow }

/-- The address a load or store uses. -/
def Transfer.address (t : Transfer) (ops : Operands) (carry : Bool) : Address :=
  if t.pre then
    if t.up then ops.rn + t.offset.value ops carry else ops.rn - t.offset.value ops carry
  else ops.rn

namespace Instruction

def execute (i : Instruction) (ops : Operands) (f : Flags) : Outcome :=
  match i.operation with
  | .dataProcessing op _ _ rd operand =>
    let shifted := operand.value ops f.c
    let r := op.apply ops.rn shifted.value f.c
    -- A value written to R15 redirects fetch.
    let taken := i.regWrite && rd == .pc
    { result := r.value, storeValue := 0
      flags := if i.setFlags then op.newFlags f r shifted.carry else f
      branchTaken := taken, branchTarget := if taken then align r.value else 0 }
  | .multiply accumulate _ _ _ _ _ =>
    let value := multiplyAdd ops.rm ops.rs (if accumulate then ops.rn else 0)
    { result := value, storeValue := 0, flags := if i.setFlags then f.withResult value else f
      branchTaken := false, branchTarget := 0 }
  | .transfer t =>
    { result := t.address ops f.c, storeValue := ops.rd, flags := f, branchTaken := false, branchTarget := 0 }
  | .branch _ offset =>
    { result := i.pc + 4, storeValue := 0, flags := f
      branchTaken := i.branch, branchTarget := if i.branch then i.target offset else 0 }
  | .coprocessor | .undefined =>
    { result := 0, storeValue := 0, flags := f, branchTaken := false, branchTarget := 0 }

end Instruction

end FiveStageArm
