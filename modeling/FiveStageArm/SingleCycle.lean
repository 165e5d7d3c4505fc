/-
  FiveStageArm.SingleCycle — the core without a pipeline: each step fetches, executes and
  retires one instruction. A branch to itself that passes halts it; a halted core does not
  step. R15 is the core's own `pc`, so nothing is ever written to slot 15 of the registers.
-/

import FiveStageArm.Machine

namespace FiveStageArm

structure SingleCycle where
  pc : Address
  cycles : Nat
  instructions : Nat
  halted : Bool
  /-- The instruction retired last, its condition resolved. -/
  last : Option Instruction
  breakpoints : Breakpoints

namespace SingleCycle

def fresh : SingleCycle := ⟨0, 0, 0, false, none, []⟩

/-- Breakpoints stay; the registers go to zero with the core. -/
def reset (c : SingleCycle) (m : Machine) : SingleCycle × Machine :=
  ({ fresh with breakpoints := c.breakpoints }, { m with registers := .zero })

def setPc (c : SingleCycle) (a : Address) : SingleCycle := { c with pc := align a }

/-- What an instruction writes to the registers: its result unless Rd is R15, then the
    flags. -/
def writeBack (s : Registers) (i : Instruction) (value : Word) (flags : Flags) : Registers :=
  let s := if i.regWrite && i.rd != .pc then s.write i.rd value else s
  if i.setFlags then s.setFlags flags else s

/-- One instruction, whether or not the core is halted. -/
def retire : SingleCycle × Machine → SingleCycle × Machine
  | (c, ⟨board, registers⟩) =>
    let (w, board) := board.fetch c.pc
    let i := decodeGated w c.pc registers.flags
    let o := i.execute (i.operands registers.read) registers.flags
    let (loaded, board) := board.access i o.result o.storeValue
    let registers := writeBack registers i (if i.memRead then loaded else o.result) o.flags
    ({ c with
        pc := if o.branchTaken then o.branchTarget else c.pc + 4
        cycles := c.cycles + 1
        instructions := c.instructions + 1
        halted := i.isSelfBranch
        last := some i },
      ⟨board, registers⟩)

def step (s : SingleCycle × Machine) : SingleCycle × Machine := if s.1.halted then s else retire s

/-- A run ends here: the core has halted or has come to a breakpoint. -/
def stops (s : SingleCycle × Machine) : Bool := s.1.halted || s.1.breakpoints.contains s.1.pc

def run (limit : Nat) (s : SingleCycle × Machine) : Nat × SingleCycle × Machine :=
  runFrom (·.1.halted) stops step limit 0 s

end SingleCycle

end FiveStageArm
