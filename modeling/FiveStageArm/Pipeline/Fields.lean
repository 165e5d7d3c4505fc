/-
  FiveStageArm.Pipeline.Fields — the pipeline with its latches as flat records, every field
  present whether or not there is an instruction in the latch.

  A record carries a valid bit. A stage with nothing to do hands on a new record, with the
  defaults below; a flush writes every field of the record that is there. A record that is not
  valid is a bubble. No stage acts on it, but its other fields are there all the same, and an
  operand forwarded from a bubble would be one of them.

  `Flat` has what the latches depend on. The counters, the last decision and the trace are
  left out, since no stage reads them.
-/

import FiveStageArm.Pipeline.Basic
import FiveStageArm.Isa.Fields

namespace FiveStageArm

/-- The load or store that a record's signals ask for. -/
def Bus.accessFields (b : Bus n) (f : Fields) (a : Address) (stored : Word) : Word × Bus n :=
  if f.memRead then
    if f.byte then
      let (v, b) := b.readByte a
      (v.toUInt32, b)
    else b.read a
  else if f.memWrite then (0, if f.byte then b.writeByte a stored.toUInt8 else b.write a stored)
  else (0, b)

namespace Pipeline

/-! ## Records -/

structure FetchedFields where
  valid : Bool := false
  raw : Word := nopWord
  pc : Address := 0
  nextPc : Address := 4

structure DecodedFields where
  valid : Bool := false
  instruction : Fields := {}
  operands : Operands := ⟨0, 0, 0, 0⟩
  pc : Address := 0
  nextPc : Address := 4

structure ExecutedFields where
  valid : Bool := false
  instruction : Fields := {}
  result : Word := 0
  storeValue : Word := 0
  branchTaken : Bool := false
  branchTarget : Address := 0

structure AccessedFields where
  valid : Bool := false
  instruction : Fields := {}
  result : Word := 0
  loaded : Word := 0

/-- What goes to the destination register. -/
def AccessedFields.value (r : AccessedFields) : Word := if r.instruction.memToReg then r.loaded else r.result

structure LatchFields where
  ifId : FetchedFields := {}
  idEx : DecodedFields := {}
  exMem : ExecutedFields := {}
  memWb : AccessedFields := {}

def Fetched.fields (f : Fetched) : FetchedFields := ⟨true, f.raw, f.pc, f.nextPc⟩

def Decoded.fields (d : Decoded) : DecodedFields :=
  ⟨true, d.instruction.fields, d.operands, d.instruction.pc, d.nextPc⟩

def Executed.fields (e : Executed) : ExecutedFields :=
  ⟨true, e.instruction.fields, e.result, e.storeValue, e.branchTaken, e.branchTarget⟩

def Accessed.fields (a : Accessed) : AccessedFields := ⟨true, a.instruction.fields, a.result, a.loaded⟩

def Latches.fields (l : Latches) : LatchFields :=
  ⟨l.ifId.elim {} (·.fields), l.idEx.elim {} (·.fields), l.exMem.elim {} (·.fields), l.memWb.elim {} (·.fields)⟩

/-! ## The clock edge -/

def FetchedFields.flush (r : FetchedFields) : FetchedFields :=
  { r with raw := nopWord, pc := 0, nextPc := 4, valid := false }

def DecodedFields.flush (r : DecodedFields) : DecodedFields :=
  { r with instruction := {}, operands := ⟨0, 0, 0, 0⟩, pc := 0, nextPc := 4, valid := false }

def ExecutedFields.flush (r : ExecutedFields) : ExecutedFields :=
  { r with instruction := {}, result := 0, storeValue := 0, branchTarget := 0, branchTaken := false, valid := false }

def AccessedFields.flush (r : AccessedFields) : AccessedFields :=
  { r with instruction := {}, result := 0, loaded := 0, valid := false }

def LatchFields.flush (l : LatchFields) : LatchFields :=
  { l with ifId := l.ifId.flush, idEx := l.idEx.flush, exMem := l.exMem.flush, memWb := l.memWb.flush }

/-- What an action makes of the record that is there, given the one a stage has computed. -/
def Action.latch (a : Action) (flush : α → α) (current next : α) : α :=
  match a with
  | .advance => next
  | .hold => current
  | .bubble => flush current

/-! ## Hazards -/

namespace LatchFields

variable (l : LatchFields)

def loadUse (next : Fields) : Bool :=
  l.idEx.valid && l.idEx.instruction.memRead && next.reads l.idEx.instruction.rd

def rawHazard (next : Fields) : Bool :=
  (l.idEx.valid && l.idEx.instruction.regWrite && next.reads l.idEx.instruction.rd)
    || (l.exMem.valid && l.exMem.instruction.regWrite && next.reads l.exMem.instruction.rd)

def mustStall (config : Config) : Bool :=
  if config.hazardDetection && l.ifId.valid then
    let next := (decode l.ifId.raw l.ifId.pc).fields
    if config.forwarding then l.loadUse next else l.rawHazard next
  else false

def sourceOf (r : Reg) : Source :=
  if r = .pc then .latched
  else if l.exMem.valid && l.exMem.instruction.regWrite && !l.exMem.instruction.memRead
      && l.exMem.instruction.rd == r then .exMem
  else if l.memWb.valid && l.memWb.instruction.regWrite && l.memWb.instruction.rd == r then .memWb
  else .latched

def evaluate (config : Config) : Decision :=
  let i := l.idEx.instruction
  let source (used : Bool) (r : Reg) : Source := if used then l.sourceOf r else .latched
  { stall := l.mustStall config
    flush := false
    bypass := if config.forwarding && l.idEx.valid then
        ⟨source i.usesRn i.rn, source i.usesRm i.rm, source i.usesRs i.rs, source i.usesRd i.rd⟩
      else .none }

end LatchFields

/-! ## The stages -/

/-- Write-back: stages the write of a retiring instruction. -/
def AccessedFields.writeBack (r : AccessedFields) (s : Registers) : Registers :=
  if r.valid then if r.instruction.regWrite then s.stageWrite r.instruction.rd r.value else s else s

/-- Memory access: the next MEM/WB. -/
def ExecutedFields.access (r : ExecutedFields) (b : Board) : AccessedFields × Board :=
  if r.valid then
    let (loaded, b) := b.accessFields r.instruction r.result r.storeValue
    ({ valid := true, instruction := r.instruction, result := r.result, loaded }, b)
  else ({}, b)

def LatchFields.operandFrom (l : LatchFields) (source : Source) (latched : Word) : Word :=
  match source with
  | .latched => latched
  | .exMem => l.exMem.result
  | .memWb => l.memWb.value

def LatchFields.forward (l : LatchFields) (b : Bypass) (ops : Operands) : Operands :=
  ⟨l.operandFrom b.rn ops.rn, l.operandFrom b.rm ops.rm, l.operandFrom b.rs ops.rs, l.operandFrom b.rd ops.rd⟩

/-- Execute: the next EX/MEM, and the registers with the new flags staged. -/
def LatchFields.execute (l : LatchFields) (b : Bypass) (s : Registers) : ExecutedFields × Registers :=
  if l.idEx.valid then
    let i := l.idEx.instruction.gate s.flags
    let o := i.execute (l.forward b l.idEx.operands) s.flags
    ({ valid := true, instruction := i, result := o.result, storeValue := o.storeValue
       branchTaken := o.branchTaken, branchTarget := o.branchTarget },
      if i.setFlags then s.stageFlags o.flags else s)
  else ({}, s)

/-- Decode: the next ID/EX. -/
def FetchedFields.decode (r : FetchedFields) (s : Registers) : DecodedFields :=
  if r.valid then
    let i := (FiveStageArm.decode r.raw r.pc).fields
    let read (q : Reg) : Word := if q = .pc then r.pc + 8 else s.readForwarded q
    { valid := true, instruction := i, operands := ⟨read i.rn, read i.rm, read i.rs, read i.rd⟩
      pc := r.pc, nextPc := r.nextPc }
  else {}

/-- Fetch: the next IF/ID. -/
def fetchFields (pc : Address) (b : Board) : FetchedFields × Board :=
  let (w, b) := b.fetch pc
  ({ valid := true, raw := w, pc, nextPc := pc + 4 }, b)

/-! ## The pipeline -/

structure Flat where
  latches : LatchFields
  /-- The address of the next fetch. -/
  pc : Address
  config : Config
  halted : Bool
  breakpoints : Breakpoints

/-- A pipeline's latches written out. -/
def flat (p : Pipeline) : Flat := ⟨p.latches.fields, p.pc, p.config, p.halted, p.breakpoints⟩

namespace Flat

def fresh : Flat := ⟨{}, 0, .standard, false, []⟩

def reset (p : Flat) (m : Machine) : Flat × Machine :=
  ({ p with pc := 0, halted := false, latches := p.latches.flush }, { m with registers := .zero })

def setPc (p : Flat) (a : Address) : Flat :=
  { p with
    pc := align a
    latches := { p.latches with ifId := p.latches.ifId.flush, idEx := p.latches.idEx.flush } }

/-- One clock cycle. -/
def step : Flat × Machine → Flat × Machine
  | (p, ⟨board, registers⟩) =>
    let l := p.latches
    let d := l.evaluate p.config
    let registers := l.memWb.writeBack registers
    let (memWb, board) := l.exMem.access board
    let (exMem, registers) := l.execute d.bypass registers
    let d := d.resolve (exMem.valid && exMem.branchTaken)
    let idEx := l.ifId.decode registers
    let (ifId, board) := if d.ifId = .hold then ({}, board) else fetchFields p.pc board
    let pc := if d.flush then exMem.branchTarget else if d.pc = .advance then p.pc + 4 else p.pc
    let next : LatchFields :=
      { ifId := d.ifId.latch FetchedFields.flush l.ifId ifId
        idEx := d.idEx.latch DecodedFields.flush l.idEx idEx
        exMem := d.exMem.latch ExecutedFields.flush l.exMem exMem
        memWb := d.memWb.latch AccessedFields.flush l.memWb memWb }
    ({ p with latches := next, pc, halted := p.halted || (l.memWb.valid && l.memWb.instruction.isSelfBranch) },
      ⟨board, registers.commit⟩)

def cycle (s : Flat × Machine) : Flat × Machine := if s.1.halted then s else step s

def stops (s : Flat × Machine) : Bool := s.1.halted || s.1.breakpoints.contains s.1.pc

def run (limit : Nat) (s : Flat × Machine) : Nat × Flat × Machine := runFrom (·.1.halted) stops cycle limit 0 s

end Flat

end Pipeline

end FiveStageArm
