/-
  FiveStageArm.Pipeline.Basic — the core with five stages: fetch, decode, execute, memory
  access, write-back. In one step every stage works on the latches as they stood before
  it, later stages first, and all results are latched together at its end.

  - Conditions and branches are resolved in execute, against the flags every older
    instruction has left. A taken branch squashes the two younger instructions and costs
    two cycles; what fetch reads in that cycle is squashed too, but has been read.
  - Decode sees the value write-back writes in the same cycle.
  - A branch to itself that passes halts the core when it is written back. `step` goes on
    regardless; `cycle` does not.
-/

import FiveStageArm.Pipeline.Hazard
import FiveStageArm.Pipeline.Trace
import FiveStageArm.Machine
import FiveStageArm.Isa.Decode

namespace FiveStageArm

namespace Pipeline

structure Counters where
  cycles : Nat
  instructions : Nat
  stalls : Nat
  flushes : Nat
  forwards : Nat
  deriving DecidableEq

def Counters.zero : Counters := ⟨0, 0, 0, 0, 0⟩

end Pipeline

open Pipeline in
structure Pipeline where
  latches : Latches
  /-- The address of the next fetch. -/
  pc : Address
  config : Config
  halted : Bool
  /-- Whether the last step held fetch and decode. -/
  stalled : Bool
  /-- The decision of the last step. -/
  decision : Decision
  counters : Counters
  breakpoints : Breakpoints
  trace : Trace

namespace Pipeline

def fresh : Pipeline :=
  { latches := .empty, pc := 0, config := .standard, halted := false, stalled := false, decision := .idle
    counters := .zero, breakpoints := [], trace := .ofHistory Trace.defaultHistory }

/-- Configuration and breakpoints stay; the registers go to zero with the core. -/
def reset (p : Pipeline) (m : Machine) : Pipeline × Machine :=
  ({ fresh with config := p.config, breakpoints := p.breakpoints, trace := p.trace.clear },
    { m with registers := .zero })

/-- Redirects fetch and drops the two instructions fetched on the old path. -/
def setPc (p : Pipeline) (a : Address) : Pipeline :=
  { p with pc := align a, latches := { p.latches with ifId := none, idEx := none } }

/-- Takes effect with the next cycle; what is in flight stays as it is. -/
def setForwarding (p : Pipeline) (on : Bool) : Pipeline := { p with config := { p.config with forwarding := on } }

/-! ## The stages -/

/-- Stages the write of a retiring instruction. -/
def stageWrite (s : Registers) (memWb : Option Accessed) : Registers :=
  match memWb with
  | some a => if a.instruction.regWrite then s.stageWrite a.instruction.rd a.value else s
  | none => s

def accessMemory (b : Board) (exMem : Option Executed) : Option Accessed × Board :=
  match exMem with
  | some e =>
    let (loaded, b) := b.access e.instruction e.result e.storeValue
    (some ⟨e.instruction, e.result, loaded⟩, b)
  | none => (none, b)

/-- An operand from where the decision takes it. -/
def operandFrom (l : Latches) (source : Source) (latched : Word) : Word :=
  match source with
  | .latched => latched
  | .exMem => l.exMem.elim latched (·.result)
  | .memWb => l.memWb.elim latched (·.value)

def forward (l : Latches) (b : Bypass) (ops : Operands) : Operands :=
  ⟨operandFrom l b.rn ops.rn, operandFrom l b.rm ops.rm, operandFrom l b.rs ops.rs, operandFrom l b.rd ops.rd⟩

/-- The instruction in ID/EX with its condition resolved, and what it computes. -/
def executeOne (l : Latches) (b : Bypass) (flags : Flags) (d : Decoded) : Instruction × Outcome :=
  let i := d.instruction.gate flags
  (i, i.execute (forward l b d.operands) flags)

def Executed.of (i : Instruction) (o : Outcome) : Executed :=
  ⟨i, o.result, o.storeValue, o.branchTaken, o.branchTarget⟩

/-- The next EX/MEM, and the registers with the new flags staged. -/
def executeStage (l : Latches) (b : Bypass) (s : Registers) : Option Executed × Registers :=
  match l.idEx with
  | some d =>
    let (i, o) := executeOne l b s.flags d
    (some (.of i o), if i.setFlags then s.stageFlags o.flags else s)
  | none => (none, s)

def decodeStage (s : Registers) (f : Fetched) : Decoded :=
  let i := f.decode
  ⟨i, i.operands s.readForwarded⟩

/-! ## One step -/

/-- Marks the stage each instruction in flight has just completed. -/
def recordStages (t : Trace) (cycle : Nat) (b : Board) (l : Latches) (held : Bool) (retired : Option Accessed) :
    Trace :=
  let mark (stage : String) (i : Instruction) (t : Trace) : Trace := t.record cycle i.pc i.text stage
  let t := match l.ifId with
    | some f => t.record cycle f.pc (disassemble (b.peek f.pc) f.pc) (if held then "st" else "IF")
    | none => t
  let t := l.idEx.elim t fun d => mark "ID" d.instruction t
  let t := l.exMem.elim t fun e => mark "EX" e.instruction t
  let t := l.memWb.elim t fun a => mark "MEM" a.instruction t
  retired.elim t fun a => mark "WB" a.instruction t

/-- One clock cycle. -/
def step : Pipeline × Machine → Pipeline × Machine
  | (p, ⟨board, registers⟩) =>
    let l := p.latches
    let d := Decision.evaluate p.config l
    let registers := stageWrite registers l.memWb
    let (memWb, board) := accessMemory board l.exMem
    let (exMem, registers) := executeStage l d.bypass registers
    let d := d.resolve (exMem.any (·.branchTaken))
    let idEx := l.ifId.map (decodeStage registers)
    let (ifId, board) :=
      if d.holds then (none, board)
      else
        let (w, board) := board.fetch p.pc
        (some ⟨w, p.pc⟩, board)
    let pc := if d.flush then exMem.elim 0 (·.branchTarget) else if d.holds then p.pc else p.pc + 4
    let next : Latches :=
      { ifId := d.ifId.apply l.ifId ifId
        idEx := d.idEx.apply l.idEx idEx
        exMem := d.exMem.apply l.exMem exMem
        memWb := d.memWb.apply l.memWb memWb }
    let n := p.counters
    let counters : Counters :=
      { cycles := n.cycles + 1
        instructions := n.instructions + l.memWb.isSome.toNat
        stalls := n.stalls + d.holds.toNat
        flushes := n.flushes + (if d.flush then 2 else 0)
        forwards := n.forwards + d.bypass.count }
    let trace := if p.config.trace then recordStages p.trace counters.cycles board next d.holds l.memWb else p.trace
    ({ p with
        latches := next, pc, counters, trace
        halted := p.halted || l.memWb.any (·.instruction.isSelfBranch)
        stalled := d.holds
        decision := d },
      ⟨board, registers.commit⟩)

/-! ## Running -/

/-- A step unless the core has halted. -/
def cycle (s : Pipeline × Machine) : Pipeline × Machine := if s.1.halted then s else step s

/-- A run ends here: the core has halted or fetch has come to a breakpoint. -/
def stops (s : Pipeline × Machine) : Bool := s.1.halted || s.1.breakpoints.contains s.1.pc

def run (limit : Nat) (s : Pipeline × Machine) : Nat × Pipeline × Machine :=
  runFrom (·.1.halted) stops cycle limit 0 s

end Pipeline

end FiveStageArm
